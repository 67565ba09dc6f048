import Scriptlet.Proofs.Reading

/-! # The nodes of trees

The nodes of a tree at any depth, those within blocks and function literals included. What holds of
all of them is what a tree was built with.
-/

namespace Scriptlet.Grammar

variable {α : Type}

inductive Node (α : Type) where
  | expr (value : Expr α)
  | stmt (value : Stmt α)
  /-- A name that is bound: a parameter, or the target of a `let`. -/
  | binder (ident : Ident α)

mutual

def Expr.nodes : Expr α → List (Node α)
  | .int label value => [.expr (.int label value)]
  | .bool label value => [.expr (.bool label value)]
  | .name label name => [.expr (.name label name)]
  | .string label text => [.expr (.string label text)]
  | .array label elements => .expr (.array label elements) :: nodesOfAll elements
  | .map label entries => .expr (.map label entries) :: nodesOfEntries entries
  | .unary label op operand => .expr (.unary label op operand) :: operand.nodes
  | .binary label op lhs rhs => .expr (.binary label op lhs rhs) :: (lhs.nodes ++ rhs.nodes)
  | .branch label condition consequence alternative =>
    .expr (.branch label condition consequence alternative)
      :: (condition.nodes ++ consequence.nodes ++ nodesOfAlternative alternative)
  | .function label parameters body =>
    .expr (.function label parameters body) :: (parameters.map .binder ++ body.nodes)
  | .call label callee arguments =>
    .expr (.call label callee arguments) :: (callee.nodes ++ nodesOfAll arguments)
  | .index label collection position =>
    .expr (.index label collection position) :: (collection.nodes ++ position.nodes)

def nodesOfAll : List (Expr α) → List (Node α)
  | [] => []
  | expr :: rest => expr.nodes ++ nodesOfAll rest

def nodesOfEntries : List (Expr α × Expr α) → List (Node α)
  | [] => []
  | (key, value) :: rest => key.nodes ++ value.nodes ++ nodesOfEntries rest

def nodesOfAlternative : Option (Block α) → List (Node α)
  | none => []
  | some block => block.nodes

def Block.nodes : Block α → List (Node α)
  | .mk _ body => nodesOfStatements body

def Stmt.nodes : Stmt α → List (Node α)
  | .bind label target value => .stmt (.bind label target value) :: .binder target :: value.nodes
  | .leave label none => [.stmt (.leave label none)]
  | .leave label (some value) => .stmt (.leave label (some value)) :: value.nodes
  | .expr label value => .stmt (.expr label value) :: value.nodes
  | .block inner => .stmt (.block inner) :: inner.nodes

def nodesOfStatements : List (Stmt α) → List (Node α)
  | [] => []
  | stmt :: rest => stmt.nodes ++ nodesOfStatements rest

end

theorem Expr.mem_nodes (expr : Expr α) : .expr expr ∈ expr.nodes := by
  cases expr <;> exact List.mem_cons_self

theorem mem_nodesOfAll {values : List (Expr α)} {value : Expr α} (hvalue : value ∈ values)
    {node : Node α} (h : node ∈ value.nodes) : node ∈ nodesOfAll values := by
  induction hvalue with
  | head => exact List.mem_append_left _ h
  | tail _ _ ih => exact List.mem_append_right _ ih

theorem mem_nodesOfEntries {entries : List (Expr α × Expr α)} {entry : Expr α × Expr α}
    (hentry : entry ∈ entries) {node : Node α} (h : node ∈ entry.1.nodes ++ entry.2.nodes) :
    node ∈ nodesOfEntries entries := by
  induction hentry with
  | head => exact List.mem_append_left _ h
  | tail _ _ ih => exact List.mem_append_right _ ih

theorem mem_nodesOfStatements {stmts : List (Stmt α)} {stmt : Stmt α} (hstmt : stmt ∈ stmts)
    {node : Node α} (h : node ∈ stmt.nodes) : node ∈ nodesOfStatements stmts := by
  induction hstmt with
  | head => exact List.mem_append_left _ h
  | tail _ _ ih => exact List.mem_append_right _ ih

def Item.nodes : Item → List (Node Token)
  | .expr value => value.nodes
  | .entry key value => key.nodes ++ value.nodes
  | .binder ident => [.binder ident]

def Phrase.nodes : Phrase → List (Node Token)
  | .item part => part.nodes
  | .items _ parts => parts.flatMap Item.nodes
  | .stmt part => part.nodes
  | .body parts => nodesOfStatements parts
  | .block part => part.nodes

theorem flatMap_nodes_expr (values : List (Expr Token)) :
    (values.map Item.expr).flatMap Item.nodes = nodesOfAll values := by
  induction values with
  | nil => rfl
  | cons first rest ih => simp only [List.map_cons, List.flatMap_cons, ih, Item.nodes, nodesOfAll]

theorem flatMap_nodes_entry (entries : List (Expr Token × Expr Token)) :
    (entries.map fun pair => Item.entry pair.1 pair.2).flatMap Item.nodes
      = nodesOfEntries entries := by
  induction entries with
  | nil => rfl
  | cons first rest ih =>
    simp only [List.map_cons, List.flatMap_cons, ih, Item.nodes, nodesOfEntries]

theorem flatMap_nodes_binder (parameters : List (Ident Token)) :
    (parameters.map Item.binder).flatMap Item.nodes = parameters.map .binder := by
  induction parameters with
  | nil => rfl
  | cons first rest ih =>
    simp only [List.map_cons, List.flatMap_cons, ih, Item.nodes, List.singleton_append]

end Scriptlet.Grammar
