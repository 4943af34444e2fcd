import CommandTree.ArgumentType.Double
import CommandTree.ArgumentType.Integer
import CommandTree.ArgumentType.Literal

/-!
# Tables of argument types

A node named `@name` is read by the argument type registered under `name`; every other node, and
one whose type is not registered, is a literal.

Results:
* `lookup_register`, `lookup_unregister`: what a node is read by after a change of the table.
-/
namespace CommandTree

/-- Argument types by the node names that they read. -/
structure TypeTable (ε : Type) where
  entries : List (String × ArgumentType ε)

namespace TypeTable

variable {ε : Type}

/-- The name of the nodes that a type registered under `name` reads. -/
def nodeName (name : String) : String := "@" ++ name

def without (t : TypeTable ε) (key : String) : List (String × ArgumentType ε) :=
  t.entries.filter fun entry => entry.1 != key

def contains (t : TypeTable ε) (name : String) : Bool :=
  t.entries.any fun entry => entry.1 == nodeName name

def register (t : TypeTable ε) (name : String) (type : ArgumentType ε) : TypeTable ε :=
  ⟨(nodeName name, type) :: t.without (nodeName name)⟩

def unregister (t : TypeTable ε) (name : String) : TypeTable ε := ⟨t.without (nodeName name)⟩

def lookup (t : TypeTable ε) (node : String) : ArgumentType ε :=
  (t.entries.lookup node).getD ArgumentType.literal

def standard : TypeTable ε :=
  (((⟨[]⟩ : TypeTable ε).register "string" .text).register "int" .integer).register "double" .double

theorem lookup_without (t : TypeTable ε) (key node : String) :
    (t.without key).lookup node = if node = key then none else t.entries.lookup node := by
  unfold without
  induction t.entries with
  | nil => simp
  | cons e es ih =>
    by_cases he : e.1 = key
    · rw [List.filter_cons_of_neg (by simp [he]), ih, List.lookup_cons]
      by_cases hn : node = key
      · simp [hn]
      · simp [hn, he, beq_false_of_ne hn]
    · rw [List.filter_cons_of_pos (by simp [he]), List.lookup_cons, List.lookup_cons, ih]
      by_cases hn : node = e.1
      · simp [hn, he]
      · simp [beq_false_of_ne hn]

/-- A registered type reads the nodes of its name, and no others change. -/
theorem lookup_register (t : TypeTable ε) (name node : String) (type : ArgumentType ε) :
    (t.register name type).lookup node = if node = nodeName name then type else t.lookup node := by
  unfold register lookup
  rw [List.lookup_cons, lookup_without]
  by_cases h : node = nodeName name
  · simp [h]
  · simp [h, beq_false_of_ne h]

theorem lookup_unregister (t : TypeTable ε) (name node : String) :
    (t.unregister name).lookup node =
      if node = nodeName name then ArgumentType.literal else t.lookup node := by
  unfold unregister lookup
  rw [lookup_without]
  split <;> simp

end TypeTable

end CommandTree
