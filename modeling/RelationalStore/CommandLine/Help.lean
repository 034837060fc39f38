import RelationalStore.CommandLine.Basic
import RelationalStore.Text.Fields

/-!
# How the program is used

The texts that are shown when help is asked for: what a command does, the form of its
operands, and the options.
-/

namespace RelationalStore

namespace Verb

/-- What a command does. -/
def about : Verb → String
  | tables => "列出所有表"
  | describe => "查看表结构"
  | select => "查询全部列：多张表时做笛卡尔积"
  | drop => "删除表"
  | status => "存储引擎状态"
  | help => "Print this message or the help of the given subcommand(s)"

/-- The form of the operands of a command. -/
def operandForm? : Verb → Option String
  | tables | status => none
  | describe | drop => some "<TABLE>"
  | select => some "<TABLES>..."
  | help => some "[COMMAND]..."

/-- What the operands of a command are. -/
def operandNote : Verb → String
  | help => "Print help for the subcommand(s)"
  | _ => ""

end Verb

namespace Help

/-- The name of the program. -/
def programName : String := "mini-rdb"

/-- The name of the program and its version. -/
def versionText : String := programName ++ " 0.1.0\n"

/-- A title and the lines below it. -/
def titled (title : String) (lines : List String) : String :=
  title ++ ":\n" ++ String.join (lines.map fun l => "  " ++ l ++ "\n")

/-- How the program is called. -/
def usage : String :=
  "Usage: " ++ programName ++ " [OPTIONS] <COMMAND>\n"

/-- The help on the whole program. -/
def programText : String :=
  "关系数据库存储目录的命令行工具\n\n" ++ usage ++ "\n" ++
    titled "Commands" (Verb.all.map fun verb => Text.padEnd 10 verb.name ++ verb.about) ++
    "\n" ++
    titled "Options"
      ["-c, --config <CONFIG>  配置文件路径，默认读取 ./config.toml（不存在时使用默认配置）",
        "    --json             以 JSON 输出结果",
        "-h, --help             Print help",
        "-V, --version          Print version"]

/-- The help on one command. -/
def commandText (verb : Verb) : String :=
  let form := verb.operandForm?.toList
  let operands :=
    form.map fun f => titled "Arguments" [f ++ "  " ++ verb.operandNote]
  let options :=
    if verb = .help then [] else [titled "Options" ["-h, --help  Print help"]]
  let call := "Usage: " ++ " ".intercalate ([programName, verb.name] ++ form) ++ "\n"
  "\n".intercalate ([verb.about ++ "\n", call] ++ operands ++ options)

/-- The help on a topic. -/
def text : Option Verb → String
  | none => programText
  | some verb => commandText verb

end Help

end RelationalStore
