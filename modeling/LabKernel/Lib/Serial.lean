/-
Sequential objects, and histories of calls that overlap.

The calls of a history are numbered in the order they are made. A history is explained by an
object if every call returns what the object answers it after exactly the calls before it, so
that the calls take effect one after the other, each between its call and its return. Nothing here
names a program.
-/

import LabKernel.Lib.History

set_option autoImplicit false

namespace LabKernel.Serial

open History

/-- What an operation does to a state, and what it is answered in it. -/
structure Object (State Op Result : Type) where
  apply : State → Op → State
  answer : State → Op → Result

variable {State Op Result : Type}

namespace Object

variable (object : Object State Op Result) (start : State)

def replay (ops : List Op) : State := ops.foldl object.apply start

def answerAt (ops : List Op) (ticket : Nat) : Option Result :=
  ops[ticket]?.map (object.answer (object.replay start (ops.take ticket)))

variable {object : Object State Op Result} {start : State}

theorem replay_concat (ops : List Op) (op : Op) :
    object.replay start (ops ++ [op]) = object.apply (object.replay start ops) op := by
  unfold replay
  rw [List.foldl_append]
  rfl

theorem replay_take_succ {ops : List Op} {ticket : Nat} {op : Op} (found : ops[ticket]? = some op) :
    object.replay start (ops.take (ticket + 1)) =
      object.apply (object.replay start (ops.take ticket)) op := by
  rw [List.take_add_one, found, Option.toList_some, replay_concat]

theorem answerAt_eq {ops : List Op} {ticket : Nat} {op : Op} (found : ops[ticket]? = some op) :
    object.answerAt start ops ticket =
      some (object.answer (object.replay start (ops.take ticket)) op) := by
  unfold answerAt
  rw [found]
  rfl

theorem answerAt_append {ops : List Op} {ticket : Nat} (within : ticket < ops.length)
    (more : List Op) : object.answerAt start (ops ++ more) ticket =
      object.answerAt start ops ticket := by
  unfold answerAt
  rw [List.getElem?_append_left within, List.take_append_of_le_length (Nat.le_of_lt within)]

theorem lt_of_answerAt {ops : List Op} {ticket : Nat} {result : Result}
    (answered : object.answerAt start ops ticket = some result) : ticket < ops.length := by
  obtain ⟨op, found, _⟩ := Option.map_eq_some_iff.mp answered
  exact (List.getElem?_eq_some_iff.mp found).1

end Object

/-! ### Histories -/

/-- A call, or the return of the call with a number. -/
inductive Event (Op Result : Type) where
  | called (op : Op)
  | returned (ticket : Nat) (result : Result)
  deriving DecidableEq

def Event.op : Event Op Result → Option Op
  | .called op => some op
  | .returned _ _ => none

def calls (history : List (Event Op Result)) : List Op := history.filterMap Event.op

@[simp]
theorem calls_called (history : List (Event Op Result)) (op : Op) :
    calls (history ++ [.called op]) = calls history ++ [op] := List.filterMap_append

@[simp]
theorem calls_returned (history : List (Event Op Result)) (ticket : Nat) (result : Result) :
    calls (history ++ [.returned ticket result]) = calls history := by
  unfold calls
  rw [List.filterMap_append]
  exact List.append_nil _

/-- A call returns once, after it was made, with its answer. -/
def Object.Allows (object : Object State Op Result) (start : State)
    (before : List (Event Op Result)) : Event Op Result → Prop
  | .called _ => True
  | .returned ticket result =>
      object.answerAt start (calls before) ticket = some result ∧
        ∀ other, .returned ticket other ∉ before

def Object.Explains (object : Object State Op Result) (start : State)
    (history : List (Event Op Result)) : Prop := Each (object.Allows start) history

section Explains

variable {object : Object State Op Result} {start : State} {history : List (Event Op Result)}

theorem Object.Explains.called (explains : object.Explains start history) (op : Op) :
    object.Explains start (history ++ [.called op]) := explains.concat trivial

theorem Object.Explains.returned (explains : object.Explains start history) {ticket : Nat}
    {result : Result} (answered : object.answerAt start (calls history) ticket = some result)
    (fresh : ∀ other, .returned ticket other ∉ history) :
    object.Explains start (history ++ [.returned ticket result]) :=
  explains.concat ⟨answered, fresh⟩

theorem Object.Explains.answer (explains : object.Explains start history) {ticket : Nat}
    {result : Result} (member : .returned ticket result ∈ history) :
    object.answerAt start (calls history) ticket = some result := by
  obtain ⟨before, rest, split⟩ := List.append_of_mem member
  obtain ⟨answered, -⟩ := explains before _ rest split
  have longer : calls history = calls before ++ calls (.returned ticket result :: rest) := by
    rw [split]
    exact List.filterMap_append
  rw [longer, Object.answerAt_append (Object.lt_of_answerAt answered)]
  exact answered

end Explains

end LabKernel.Serial
