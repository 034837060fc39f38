import RelationalStore.Binary.Statement
import RelationalStore.Proofs.Binary.RoundTrip

/-!
# Forms of statements and errors

The forms of statements and errors are lawful as those of tables are. A condition is a
tree whose reader is given a bound on the depth, so it is shown first that a bound which is
large enough for the tree reads it, and that a smaller bound reads no tree otherwise. All in
all the forms of each type that is stored or sent are a code that is free of prefixes.
-/

namespace RelationalStore

namespace Binary

instance : Lawful Comparator where
  write_ne_nil c := by
    cases c <;> exact writeNat_ne_nil _
  reads c _ := by
    cases c <;> exact (readNat_four_reads (by decide)).finish (Reads.pure _)

/-- The form of an operand that names a column is a number with both names behind it. -/
theorem write_column (table : Option String) (name : String) :
    write (Operand.column table name) = writeNat 1 ++ (write table ++ write name) := by
  simp only [← List.append_assoc]
  rfl

instance : Lawful Operand where
  write_ne_nil operand := by
    cases operand with
    | const v => exact List.append_ne_nil_of_left_ne_nil (writeNat_ne_nil 0) _
    | column table name =>
      rw [write_column]
      exact List.append_ne_nil_of_left_ne_nil (writeNat_ne_nil 1) _
  reads operand h := by
    cases operand with
    | const v => exact reads_numbered (by decide) h reads_map
    | column table name =>
      rw [write_column] at h ⊢
      exact reads_numbered (by decide) h fun h => reads_bind h reads_map

/-- The form of a comparison names the comparator and then both operands. -/
theorem write_comparison (c : Comparison) :
    write c = write c.comparator ++ (write c.left ++ write c.right) := by
  simp only [← List.append_assoc]
  rfl

instance : Lawful Comparison where
  write_ne_nil c := by
    rw [write_comparison]
    exact List.append_ne_nil_of_left_ne_nil (Lawful.write_ne_nil c.comparator) _
  reads c h := by
    rw [write_comparison] at h ⊢
    exact reads_bind h fun h => reads_bind h reads_map

/-- The number of levels of a condition. -/
def levels : Condition → Nat
  | .not c => levels c + 1
  | .and a b | .or a b => max (levels a) (levels b) + 1
  | .holds _ => 1

/-- Every level of a condition takes at least the byte of a number. -/
theorem levels_le_length (c : Condition) : levels c ≤ (writeCondition c).length := by
  have hone : ∀ n, 0 < (writeNat n).length := fun n =>
    List.length_pos_iff.mpr (writeNat_ne_nil n)
  induction c with
  | not c ih =>
    have hnumber := hone 0
    rw [levels, writeCondition, List.length_append]
    omega
  | and a b iha ihb =>
    have hnumber := hone 1
    rw [levels, writeCondition, List.length_append, List.length_append]
    omega
  | or a b iha ihb =>
    have hnumber := hone 2
    rw [levels, writeCondition, List.length_append, List.length_append]
    omega
  | holds c =>
    have hnumber := hone 3
    rw [levels, writeCondition, List.length_append]
    omega

/-- A bound that is no less than the levels of a condition is enough to read it. -/
theorem readCondition_reads {c : Condition} {depth : Nat} (hdepth : levels c ≤ depth)
    (hsize : (writeCondition c).length < memorySize) :
    Reads (readCondition depth) (writeCondition c) c := by
  induction c generalizing depth with
  | not c ih =>
    rw [levels] at hdepth
    obtain ⟨below, rfl⟩ := Nat.exists_eq_add_one_of_ne_zero (n := depth) (by omega)
    exact reads_numbered (by decide) hsize fun h => (ih (by omega) h).map
  | and a b iha ihb =>
    rw [levels] at hdepth
    obtain ⟨below, rfl⟩ := Nat.exists_eq_add_one_of_ne_zero (n := depth) (by omega)
    rw [writeCondition, List.append_assoc] at hsize ⊢
    refine reads_numbered (by decide) hsize fun h => ?_
    rw [List.length_append] at h
    exact (iha (by omega) (by omega)).bind (ihb (by omega) (by omega)).map
  | or a b iha ihb =>
    rw [levels] at hdepth
    obtain ⟨below, rfl⟩ := Nat.exists_eq_add_one_of_ne_zero (n := depth) (by omega)
    rw [writeCondition, List.append_assoc] at hsize ⊢
    refine reads_numbered (by decide) hsize fun h => ?_
    rw [List.length_append] at h
    exact (iha (by omega) (by omega)).bind (ihb (by omega) (by omega)).map
  | holds c =>
    rw [levels] at hdepth
    obtain ⟨below, rfl⟩ := Nat.exists_eq_add_one_of_ne_zero (n := depth) (by omega)
    exact reads_numbered (by decide) hsize reads_map

/-- A reader finds the bytes malformed or does with them what another one does. -/
def Within {α : Type} (reader reader' : Reader α) : Prop :=
  ∀ input, reader input = .error malformed ∨ reader input = reader' input

namespace Within

variable {α β : Type} {reader reader' reader'' : Reader α}

/-- Every reader does what it does itself. -/
theorem refl (reader : Reader α) : Within reader reader :=
  fun _ => .inr rfl

/-- If a reader is within a second one, it is within all that the second one is within. -/
theorem trans (h : Within reader reader') (h' : Within reader' reader'') :
    Within reader reader'' := by
  intro input
  rcases h input with hfail | heq
  · exact .inl hfail
  · rw [heq]
    exact h' input

/-- Two readings in a row are within two others if each of them is within its counterpart. -/
theorem bind {next next' : α → Reader β} (h : Within reader reader')
    (hnext : ∀ a, Within (next a) (next' a)) : Within (reader >>= next) (reader' >>= next') := by
  intro input
  rcases h input with hfail | heq
  · simp [StateT.bind, Bind.bind, Except.bind, hfail]
  · simp only [StateT.bind, Bind.bind, heq]
    cases reader' input with
    | error f => exact .inr rfl
    | ok taken => exact hnext taken.1 taken.2

end Within

/-- A bound that admits one more level reads no condition otherwise. -/
theorem readCondition_within_succ (depth : Nat) :
    Within (readCondition depth) (readCondition (depth + 1)) := by
  induction depth with
  | zero => exact fun input => .inl rfl
  | succ depth ih =>
    refine Within.bind (Within.refl (readNat 4)) fun number => ?_
    match number with
    | 0 => exact ih.bind fun c => Within.refl _
    | 1 => exact ih.bind fun a => ih.bind fun b => Within.refl _
    | 2 => exact ih.bind fun a => ih.bind fun b => Within.refl _
    | 3 => exact Within.refl _
    | _ + 4 => exact Within.refl _

/-- Reading a condition with a smaller bound on the depth is within reading it with a greater
one. -/
theorem readCondition_within {depth depth' : Nat} (h : depth ≤ depth') :
    Within (readCondition depth) (readCondition depth') := by
  induction h with
  | refl => exact Within.refl _
  | step _ ih => exact ih.trans (readCondition_within_succ _)

instance : Lawful Condition where
  write_ne_nil c := by
    have hlevels : 0 < levels c := by
      cases c <;> exact Nat.succ_pos _
    exact List.length_pos_iff.mp (Nat.lt_of_lt_of_le hlevels (levels_le_length c))
  reads c h := by
    have hfull : ∀ depth, (writeCondition c).length ≤ depth →
        Reads (readCondition depth) (writeCondition c) c := fun depth hdepth =>
      readCondition_reads (Nat.le_trans (levels_le_length c) hdepth) h
    constructor
    · intro rest
      refine (hfull (writeCondition c ++ rest).length ?_).whole rest
      rw [List.length_append]
      exact Nat.le_add_right _ _
    · intro n hn
      -- fewer bytes give a smaller bound, which can only find more malformed
      have hpart := (hfull (writeCondition c).length (Nat.le_refl _)).part n hn
      have hbound : ((writeCondition c).take n).length ≤ (writeCondition c).length :=
        List.length_take_le' n _
      rcases readCondition_within hbound ((writeCondition c).take n) with hfail | heq
      · exact hfail
      · exact heq.trans hpart

/-- The form of the definition of a column is that of its fields, in their order. -/
theorem write_columnDefinition (c : ColumnDefinition) :
    write c = write c.name ++ (write c.dataType ++ (write c.charLength ++
      (write c.nullable ++ write c.primaryKey))) := by
  simp only [← List.append_assoc]
  rfl

instance : Lawful ColumnDefinition where
  write_ne_nil c := by
    rw [write_columnDefinition]
    exact List.append_ne_nil_of_left_ne_nil (Lawful.write_ne_nil c.name) _
  reads c h := by
    rw [write_columnDefinition] at h ⊢
    exact reads_bind h fun h => reads_bind h fun h => reads_bind h fun h => reads_bind h reads_map

/-- A clause for a foreign key has the number 1 in front of its fields. -/
theorem write_foreignKeyClause (columns : List String) (table : String)
    (references : List String) :
    write (TableConstraint.foreignKey columns table references) =
      writeNat 1 ++ (write columns ++ (write table ++ write references)) := by
  simp only [← List.append_assoc]
  rfl

instance : Lawful TableConstraint where
  write_ne_nil c := by
    cases c with
    | primaryKey columns => exact List.append_ne_nil_of_left_ne_nil (writeNat_ne_nil 0) _
    | foreignKey columns table references =>
      rw [write_foreignKeyClause]
      exact List.append_ne_nil_of_left_ne_nil (writeNat_ne_nil 1) _
  reads c h := by
    cases c with
    | primaryKey columns => exact reads_numbered (by decide) h reads_map
    | foreignKey columns table references =>
      rw [write_foreignKeyClause] at h ⊢
      exact reads_numbered (by decide) h fun h => reads_bind h fun h => reads_bind h reads_map

instance : Lawful Source where
  write_ne_nil s := List.append_ne_nil_of_left_ne_nil (Lawful.write_ne_nil s.name) _
  reads _ h := reads_bind h reads_map

/-- The form of a projected column is that of its fields, in their order. -/
theorem write_projection (p : Projection) :
    write p = write p.table ++ (write p.column ++ write p.asName) := by
  simp only [← List.append_assoc]
  rfl

instance : Lawful Projection where
  write_ne_nil p := by
    rw [write_projection]
    exact List.append_ne_nil_of_left_ne_nil (Lawful.write_ne_nil p.table) _
  reads p h := by
    rw [write_projection] at h ⊢
    exact reads_bind h fun h => reads_bind h reads_map

/-- A statement that creates a table has the number 0 in front of its fields. -/
theorem write_createTable (name : String) (columns : List ColumnDefinition)
    (constraints : List TableConstraint) :
    write (Statement.createTable name columns constraints) =
      writeNat 0 ++ (write name ++ (write columns ++ write constraints)) := by
  simp only [← List.append_assoc]
  rfl

/-- An insertion has the number 4 in front of its fields. -/
theorem write_insert (table : String) (columns : Option (List String)) (values : List Value) :
    write (Statement.insert table columns values) =
      writeNat 4 ++ (write table ++ (write columns ++ write values)) := by
  simp only [← List.append_assoc]
  rfl

/-- A deletion has the number 5 in front of its fields. -/
theorem write_delete (table : String) (condition : Option Condition) :
    write (Statement.delete table condition) =
      writeNat 5 ++ (write table ++ write condition) := by
  simp only [← List.append_assoc]
  rfl

/-- A query has the number 6 in front of its fields. -/
theorem write_select (projection : Option (List Projection)) (sources : List Source)
    (condition : Option Condition) :
    write (Statement.select projection sources condition) =
      writeNat 6 ++ (write projection ++ (write sources ++ write condition)) := by
  simp only [← List.append_assoc]
  rfl

instance : Lawful Statement where
  write_ne_nil s := by
    cases s <;> exact List.cons_ne_nil _ _
  reads s h := by
    cases s with
    | createTable name columns constraints =>
      rw [write_createTable] at h ⊢
      exact reads_numbered (by decide) h fun h => reads_bind h fun h => reads_bind h reads_map
    | dropTable name => exact reads_numbered (by decide) h reads_map
    | describe name => exact reads_numbered (by decide) h reads_map
    | showTables => exact (readNat_four_reads (by decide)).finish (Reads.pure Statement.showTables)
    | insert table columns values =>
      rw [write_insert] at h ⊢
      exact reads_numbered (by decide) h fun h => reads_bind h fun h => reads_bind h reads_map
    | delete table condition =>
      rw [write_delete] at h ⊢
      exact reads_numbered (by decide) h fun h => reads_bind h reads_map
    | select projection sources condition =>
      rw [write_select] at h ⊢
      exact reads_numbered (by decide) h fun h => reads_bind h fun h => reads_bind h reads_map

/-- The numbers of the errors fit in the width in which they are written. -/
theorem errorNumber_lt (e : Error) : errorNumber e < UInt32.size := by
  have hlast : errorNumber e ≤ 28 := by
    cases e <;> simp [errorNumber]
  exact Nat.lt_of_le_of_lt hlast (by decide)

instance : Lawful Error where
  write_ne_nil e := List.append_ne_nil_of_left_ne_nil (writeNat_ne_nil (errorNumber e)) _
  reads e h := by
    have hnumber := errorNumber_lt e
    cases e
    case duplicatePrimaryKey | insertDuplicateKey | incomparable =>
      exact reads_numbered hnumber h fun _ => Reads.pure _
    -- every other cause has a subject behind its number
    all_goals exact reads_numbered hnumber h reads_map

/-- The forms of a type are a code that is free of prefixes: a value whose form fits in
memory is decoded from it whatever follows, a form that lacks bytes at its end is no form
of anything, and so no form is the beginning of another one. -/
structure PrefixCode (α : Type) [Binary α] : Prop where
  whole : ∀ a : α, (write a).length < memorySize → ∀ rest, decode (write a ++ rest) = .ok a
  part : ∀ a : α, (write a).length < memorySize → ∀ bytes, bytes <+: write a →
    bytes ≠ write a → (decode bytes : Except Failure α) = .error malformed
  distinct : ∀ a b : α, (write b).length < memorySize → write a <+: write b → a = b

/-- The forms of a type that are lawful are a code that is free of prefixes. -/
theorem prefixCode_of_lawful {α : Type} [Binary α] [Lawful α] : PrefixCode α where
  whole _ h rest := decode_write_append h rest
  part _ h _ hstarts hne := decode_eq_malformed_of_prefix h hstarts hne
  distinct a b h hstarts := by
    obtain ⟨rest, hrest⟩ := hstarts
    have hshort : (write a).length < memorySize := by
      rw [← hrest, List.length_append] at h
      omega
    have hfirst := decode_write_append hshort rest
    have hwhole := decode_write_append h []
    rw [List.append_nil, ← hrest, hfirst] at hwhole
    exact Except.ok.inj hwhole

/-- What the store writes of tables, statements and errors is free of prefixes and is read
back. -/
theorem forms_prefix_free : PrefixCode Table ∧ PrefixCode Statement ∧ PrefixCode Error := by
  refine ⟨?_, ?_, ?_⟩
  · exact prefixCode_of_lawful
  · exact prefixCode_of_lawful
  · exact prefixCode_of_lawful

/-- A statement with a condition of two levels is decoded although a byte follows it, and
its first two bytes are no statement. -/
theorem forms_prefix_free_sample :
    decode (write (Statement.delete "t" (some (.not (.holds ⟨.isNull, .column none "x",
      .const .null⟩)))) ++ [7]) = .ok (Statement.delete "t" (some (.not (.holds
        ⟨.isNull, .column none "x", .const .null⟩)))) ∧
    (decode [5, 1] : Except Failure Statement) = .error malformed := by
  obtain ⟨-, hstatement, -⟩ := forms_prefix_free
  constructor
  · exact hstatement.whole _ (by decide) [7]
  · exact hstatement.part (Statement.delete "t" none) (by decide) [5, 1] (by decide) (by decide)

end Binary

end RelationalStore
