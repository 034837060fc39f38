import Mathlib.Data.List.Induction
import RelationalStore.Proofs.Table.Product

/-!
# Products in any grouping

Products may be formed in any grouping of the tables. A product has no name, so that its
columns keep the qualifiers which they got from the tables, and the rows of the outer table are
walked first in either grouping. The table of one empty row is neutral on both sides: it only
turns a table into a product, which is the table as it is read.
-/

namespace RelationalStore

namespace Table

variable {schema : Schema} {rows : List Row}

/-- A table that is nothing but columns and rows, as products are. -/
def bare (schema : Schema) (rows : List Row) : Table :=
  { blank "" with schema := schema, rows := rows }

/-- The columns of a table are qualified by the alias under which it is read, or else by its
name; if it has none, they stay as they are. -/
theorem qualifiedSchema_eq_map (t : Table) (asName : Option String) :
    t.qualifiedSchema asName = t.schema.map fun a =>
      { a with table := asName.getD (if t.name = "" then a.table else t.name) } := by
  cases asName with
  | some name => rfl
  | none =>
    by_cases hname : t.name = ""
    · rw [qualifiedSchema_none hname]
      simp [hname]
    · simp [qualifiedSchema, qualifier?, hname]

/-- What is bare keeps its columns when it is multiplied. -/
theorem qualifiedSchema_bare : (bare schema rows).qualifiedSchema none = schema :=
  qualifiedSchema_none rfl

/-- A product has the qualified columns of both sides and each row of the one beside each of the
other. -/
theorem product_eq_bare (left : Table) (leftAlias : Option String) (right : Table)
    (rightAlias : Option String) :
    left.product leftAlias right rightAlias =
      bare (left.qualifiedSchema leftAlias ++ right.qualifiedSchema rightAlias)
        (left.rows.flatMap fun l => right.rows.map fun r => l ++ r) := rfl

/-- Products may be grouped either way, if the grouped side keeps its qualified names. -/
theorem product_assoc (a b c : Table) (x y z : Option String) :
    (a.product x b y).product none c z = a.product x (b.product y c z) none := by
  rw [product_eq_bare a, product_eq_bare b, product_eq_bare, product_eq_bare,
    qualifiedSchema_bare, qualifiedSchema_bare, List.append_assoc]
  refine congrArg (bare _) ?_
  -- three rows are put together for the same triples, which come in the same order
  simp only [bare, List.flatMap_assoc, List.flatMap_map, List.map_flatMap, List.map_map]
  refine congrArg (List.flatMap · a.rows) (funext fun k => congrArg (List.flatMap · b.rows)
    (funext fun l => List.map_congr_left fun r _ => ?_))
  exact List.append_assoc k l r

/-- In front of a table the unit only qualifies its columns. -/
theorem unit_product (t : Table) (asName : Option String) :
    unit.product none t asName = bare (t.qualifiedSchema asName) t.rows := by
  have hrows : (unit.rows.flatMap fun l => t.rows.map fun r => l ++ r) = t.rows := by
    simp [unit]
  rw [product_eq_bare, hrows]
  rfl

/-- Behind a table the unit only qualifies its columns. -/
theorem product_unit (t : Table) (asName : Option String) :
    t.product asName unit none = bare (t.qualifiedSchema asName) t.rows := by
  have hrows : (t.rows.flatMap fun l => unit.rows.map fun r => l ++ r) = t.rows := by
    simp [unit, List.flatMap_singleton']
  have hschema : unit.qualifiedSchema none = [] := rfl
  rw [product_eq_bare, hrows, hschema, List.append_nil]

end Table

namespace Query

/-- The last of several tables is multiplied to the product of the others. -/
theorem productOf_concat (sources : List (Table × Option String)) (t : Table)
    (asName : Option String) :
    productOf (sources ++ [(t, asName)]) = (productOf sources).product none t asName := by
  simp [productOf]

/-- The product of tables is bare. -/
theorem productOf_product_unit (sources : List (Table × Option String)) :
    (productOf sources).product none Table.unit none = productOf sources := by
  rw [Table.product_unit]
  rcases List.eq_nil_or_concat' sources with rfl | ⟨front, ⟨t, asName⟩, rfl⟩
  · rfl
  · rw [productOf_concat, Table.product_eq_bare, Table.qualifiedSchema_bare]
    rfl

/-- The product of two lists of tables, one behind the other, is that of their products. -/
theorem productOf_append (front back : List (Table × Option String)) :
    productOf (front ++ back) = (productOf front).product none (productOf back) none := by
  induction back using List.reverseRecOn with
  | nil =>
    rw [List.append_nil]
    exact (productOf_product_unit front).symm
  | append_singleton back source ih =>
    obtain ⟨t, asName⟩ := source
    calc productOf (front ++ (back ++ [(t, asName)]))
        = (productOf (front ++ back)).product none t asName := by
          rw [← List.append_assoc, productOf_concat]
      _ = ((productOf front).product none (productOf back) none).product none t asName := by rw [ih]
      _ = (productOf front).product none (productOf (back ++ [(t, asName)])) none := by
          rw [Table.product_assoc, productOf_concat]

end Query

/-- Products are a monoid operation. It makes no difference which of two products of three
tables is formed first, to no column, no qualifier, no row and not to the order of the rows.
The product with the table of one empty row, on either side, has the rows of the other table
and its columns, qualified by the alias or else by the name of the table if it has one. So the
product of a list of tables is that of any two parts of the list. -/
theorem Table.product_monoid :
    (∀ (a b c : Table) (x y z : Option String),
      (a.product x b y).product none c z = a.product x (b.product y c z) none) ∧
    (∀ (t : Table) (x : Option String),
      let columns := t.schema.map fun a =>
        { a with table := x.getD (if t.name = "" then a.table else t.name) }
      unit.product none t x = bare columns t.rows ∧ t.product x unit none = bare columns t.rows) ∧
    ∀ front back : List (Table × Option String),
      Query.productOf (front ++ back) =
        (Query.productOf front).product none (Query.productOf back) none := by
  refine ⟨product_assoc, fun t x => ?_, Query.productOf_append⟩
  rw [← qualifiedSchema_eq_map]
  exact ⟨unit_product t x, product_unit t x⟩

end RelationalStore
