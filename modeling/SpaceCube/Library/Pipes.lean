import Mathlib.Data.List.Infix
import Mathlib.Logic.Relation

/- A pipe from one end of a connection to the other. What is pushed waits in the outbox, what is
   written is on the wire, and what is read is off it. However an implementation keeps the three,
   it is a pipe when the records of what was pushed, written and read only grow. -/
namespace Pipes
variable {α : Type*}

structure Pipe (α : Type*) where
  outbox : List α
  wire : List α
  read : List α

def Pipe.written (p : Pipe α) : List α := p.read ++ p.wire

def Pipe.pushed (p : Pipe α) : List α := p.written ++ p.outbox

inductive Move : Pipe α → Pipe α → Prop
  | push (outbox wire read : List α) (msg : α) :
    Move ⟨outbox, wire, read⟩ ⟨outbox ++ [msg], wire, read⟩
  | write (msg : α) (outbox wire read : List α) :
    Move ⟨msg :: outbox, wire, read⟩ ⟨outbox, wire ++ [msg], read⟩
  | take (msg : α) (outbox wire read : List α) :
    Move ⟨outbox, msg :: wire, read⟩ ⟨outbox, wire, read ++ [msg]⟩

abbrev Moves : Pipe α → Pipe α → Prop := Relation.ReflTransGen Move

variable {outbox wire read : List α} {p q : Pipe α}

theorem push_all (msgs : List α) :
    Moves ⟨outbox, wire, read⟩ ⟨outbox ++ msgs, wire, read⟩ := by
  induction msgs generalizing outbox with
  | nil => rw [List.append_nil]
  | cons msg msgs ih =>
    have rest : Moves ⟨outbox ++ [msg], wire, read⟩ ⟨outbox ++ [msg] ++ msgs, wire, read⟩ := ih
    rw [List.append_assoc, List.singleton_append] at rest
    exact .head (.push outbox wire read msg) rest

theorem write_all (msgs : List α) :
    Moves ⟨msgs ++ outbox, wire, read⟩ ⟨outbox, wire ++ msgs, read⟩ := by
  induction msgs generalizing wire with
  | nil => rw [List.append_nil, List.nil_append]
  | cons msg msgs ih =>
    have rest : Moves ⟨msgs ++ outbox, wire ++ [msg], read⟩ ⟨outbox, wire ++ [msg] ++ msgs, read⟩ :=
      ih
    rw [List.append_assoc, List.singleton_append] at rest
    exact .head (.write msg (msgs ++ outbox) wire read) rest

theorem take_all (msgs : List α) :
    Moves ⟨outbox, msgs ++ wire, read⟩ ⟨outbox, wire, read ++ msgs⟩ := by
  induction msgs generalizing read with
  | nil => rw [List.append_nil, List.nil_append]
  | cons msg msgs ih =>
    have rest : Moves ⟨outbox, msgs ++ wire, read ++ [msg]⟩ ⟨outbox, wire, read ++ [msg] ++ msgs⟩ :=
      ih
    rw [List.append_assoc, List.singleton_append] at rest
    exact .head (.take msg outbox (msgs ++ wire) read) rest

/-- The records of one pipe go on in those of another. -/
structure Grows (p q : Pipe α) : Prop where
  read : p.read <+: q.read
  written : p.written <+: q.written
  pushed : p.pushed <+: q.pushed

/-- First everything is pushed, then everything written, then everything read. -/
theorem grows_moves (grows : Grows p q) : Moves p q := by
  obtain ⟨outbox, wire, read⟩ := p
  obtain ⟨outbox', wire', read'⟩ := q
  obtain ⟨⟨heard, rfl⟩, ⟨sent, written⟩, ⟨more, pushed⟩⟩ := grows
  simp only [Pipe.pushed, Pipe.written] at written pushed
  have pushed : outbox ++ more = sent ++ outbox' := by
    rw [← written, List.append_assoc, List.append_assoc (read ++ wire)] at pushed
    exact List.append_cancel_left pushed
  have written : wire ++ sent = heard ++ wire' := by
    rw [List.append_assoc, List.append_assoc] at written
    exact List.append_cancel_left written
  have first : Moves ⟨outbox, wire, read⟩ ⟨sent ++ outbox', wire, read⟩ :=
    pushed ▸ push_all more
  have second : Moves ⟨sent ++ outbox', wire, read⟩ ⟨outbox', heard ++ wire', read⟩ :=
    written ▸ write_all sent
  exact (first.trans second).trans (take_all heard)

/-- The pipe of all that was pushed, as far as it was written and read. -/
def cut (all : List α) (written : Nat) (read : List α) : Pipe α :=
  ⟨all.drop written, (all.take written).drop read.length, read⟩

theorem cut_written {all : List α} {written : Nat} (early : read <+: all.take written) :
    (cut all written read).written = all.take written := by
  obtain ⟨rest, whole⟩ := early
  rw [Pipe.written, cut, ← whole, List.drop_left]

theorem cut_pushed {all : List α} {written : Nat} (early : read <+: all.take written) :
    (cut all written read).pushed = all := by
  rw [Pipe.pushed, cut_written early]
  exact List.take_append_drop written all

/-- A queue with counters moves as a pipe when they only go up. -/
theorem cut_moves {all all' read' : List α} {written written' : Nat}
    (early : read <+: all.take written) (early' : read' <+: all'.take written')
    (pushes : all <+: all') (writes : written ≤ written') (takes : read <+: read') :
    Moves (cut all written read) (cut all' written' read') := by
  refine grows_moves ⟨takes, ?_, ?_⟩
  · rw [cut_written early, cut_written early']
    obtain ⟨more, rfl⟩ := pushes
    have longer : all.take written <+: (all ++ more).take written :=
      List.IsPrefix.take (List.prefix_append all more) written
    exact longer.trans (List.take_prefix_take_left writes)
  · rwa [cut_pushed early, cut_pushed early']

end Pipes
