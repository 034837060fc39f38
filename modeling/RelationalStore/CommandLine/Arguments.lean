import RelationalStore.CommandLine.Basic

/-!
# Reading a command line

The arguments are read from left to right, and the first one without a meaning or
the first one that asks for help decides. An option is given at most once. Behind two
dashes all arguments are operands.
-/

namespace RelationalStore

namespace Request

/-- Whether an argument stands for an option: it starts with a dash, and there is more
of it. -/
def isOption (argument : String) : Bool :=
  match argument.toList with
  | '-' :: _ :: _ => true
  | _ => false

/-- Whether an argument among the operands of a command asks for help. -/
def asksHelp (argument : String) : Bool :=
  argument = "--help" ||
    match argument.toList with
    | '-' :: 'h' :: _ => true
    | _ => false

/-- Reads the operands of a command behind those that are already read. -/
def ofOperands (options : Options) (verb : Verb) (plain : Bool) (operands : List String) :
    List String → Request
  | [] =>
    match verb.command? operands with
    | some command => run options command
    | none => misuse
  | argument :: rest =>
    if !plain && argument = "--" then ofOperands options verb true operands rest
    else if !plain && isOption argument then
      if asksHelp argument then help (some verb) else misuse
    else if verb.takesMore operands.length then
      ofOperands options verb plain (operands ++ [argument]) rest
    else misuse

/-- Reads what help is asked for. -/
def ofTopics : List String → Request
  | [] => help none
  | [name] =>
    match Verb.ofName? name with
    | some verb => help (some verb)
    | none => misuse
  | _ => misuse

/-- The options with a path of the file of settings. The path may not be empty, and
it may be given only once. -/
def withConfig? (options : Options) (path : String) : Option Options :=
  if path = "" || options.config.isSome then none
  else some { options with config := some path }

/-- An argument in front of the command. -/
inductive Leading where
  | json
  /-- The path of the file of settings follows as the next argument. -/
  | configNext
  | config (path : String)
  | help
  | version
  | plain
  | unknown

/-- What an argument in front of the command says. -/
def leading (argument : String) : Leading :=
  match argument with
  | "--json" => .json
  | "--help" => .help
  | "--version" => .version
  | "--config" => .configNext
  | _ =>
    match argument.toList with
    | '-' :: '-' :: rest =>
      let option := "config=".toList
      if option.isPrefixOf rest then .config (String.ofList (rest.drop option.length))
      else .unknown
    | '-' :: 'h' :: _ => .help
    | '-' :: 'V' :: _ => .version
    | ['-', 'c'] => .configNext
    | '-' :: 'c' :: '=' :: rest => .config (String.ofList rest)
    | '-' :: 'c' :: rest => .config (String.ofList rest)
    | '-' :: _ :: _ => .unknown
    | _ => .plain

/-- Reads the arguments behind options that are already read. -/
def ofArgumentsAfter (options : Options) : List String → Request
  | [] => misuse
  | argument :: rest =>
    match leading argument with
    | .json => if options.json then misuse else ofArgumentsAfter { options with json := true } rest
    | .help => help none
    | .version => version
    | .unknown => misuse
    | .config path =>
      match withConfig? options path with
      | some options => ofArgumentsAfter options rest
      | none => misuse
    | .configNext =>
      match rest with
      | [] => misuse
      | path :: rest =>
        if isOption path then misuse
        else
          match withConfig? options path with
          | some options => ofArgumentsAfter options rest
          | none => misuse
    | .plain =>
      match Verb.ofName? argument with
      | some .help => ofTopics rest
      | some verb => ofOperands options verb false [] rest
      | none => misuse

/-- What a command line asks for. -/
def ofArguments (arguments : List String) : Request :=
  ofArgumentsAfter ⟨none, false⟩ arguments

end Request

end RelationalStore
