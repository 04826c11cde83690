import Mathlib.Data.Nat.Notation

/-!
# Lines

A line between two parties, first in, first out: all that was ever sent on it, and how much of it
was received.

* `Line.send`, `Line.receive?`: the two ends.
* `Line.since`: what was received from some message on. `Line.unread`: what is on the way.
* `lastOf`: the last value that messages carry.
-/

namespace Paperclip.Trace

/-- All that was ever sent, and how many messages of it were received. -/
structure Line (α : Type) where
  sent : List α
  taken : ℕ
  taken_le : taken ≤ sent.length

namespace Line

variable {α : Type}

def empty : Line α := ⟨[], 0, Nat.le_refl 0⟩

/-- Some more messages are sent. -/
def send (line : Line α) (messages : List α) : Line α where
  sent := line.sent ++ messages
  taken := line.taken
  taken_le := by
    rw [List.length_append]
    exact Nat.le_add_right_of_le line.taken_le

/-- The oldest message that was not received, if there is one. -/
def receive? (line : Line α) : Option (α × Line α) :=
  if h : line.taken < line.sent.length then
    some (line.sent[line.taken], ⟨line.sent, line.taken + 1, h⟩)
  else none

/-- What is on the way. -/
def unread (line : Line α) : List α := line.sent.drop line.taken

/-- What was received, from message `i` on. -/
def since (line : Line α) (i : ℕ) : List α := (line.sent.take line.taken).drop i

variable {line line' : Line α} {message : α} {i n : ℕ}

/-- What it means to receive a message. -/
structure Receives (line : Line α) (message : α) (line' : Line α) : Prop where
  sent : line'.sent = line.sent
  taken : line'.taken = line.taken + 1
  message : line.sent[line.taken]? = some message

theorem receives_of_receive? (h : line.receive? = some (message, line')) :
    line.Receives message line' := by
  unfold receive? at h
  split at h
  · next hlt =>
    cases h
    exact ⟨rfl, rfl, List.getElem?_eq_getElem hlt⟩
  · cases h

theorem unread_send (messages : List α) :
    (line.send messages).unread = line.unread ++ messages :=
  List.drop_append_of_le_length line.taken_le

theorem Receives.unread (h : line.Receives message line') :
    line.unread = message :: line'.unread := by
  obtain ⟨hlt, hget⟩ := List.getElem?_eq_some_iff.1 h.message
  rw [Line.unread, Line.unread, h.sent, h.taken, List.drop_eq_getElem_cons hlt, hget]

@[simp]
theorem send_nil : line.send [] = line := by
  obtain ⟨sent, taken, htaken⟩ := line
  simp only [send, List.append_nil]

theorem getElem?_send (hn : n < line.taken) (messages : List α) :
    (line.send messages).sent[n]? = line.sent[n]? :=
  List.getElem?_append_left (Nat.lt_of_lt_of_le hn line.taken_le)

theorem since_send (messages : List α) : (line.send messages).since i = line.since i := by
  rw [since, since, send, List.take_append_of_le_length line.taken_le]

theorem since_taken : line.since line.taken = [] := by
  rw [since, List.drop_eq_nil_iff, List.length_take]
  exact Nat.min_le_left _ _

theorem Receives.since (h : line.Receives message line') (hi : i ≤ line.taken) :
    line'.since i = line.since i ++ [message] := by
  obtain ⟨hlt, hget⟩ := List.getElem?_eq_some_iff.1 h.message
  have htake : (line.sent.take line.taken).length = line.taken := by
    rw [List.length_take, Nat.min_eq_left line.taken_le]
  rw [Line.since, Line.since, h.sent, h.taken, List.take_add_one, h.message,
    List.drop_append_of_le_length (by rw [htake]; exact hi)]
  rfl

/-- A message that was received since `i`. -/
theorem mem_since (hi : i ≤ n) (hn : n < line.taken) (h : line.sent[n]? = some message) :
    message ∈ line.since i := by
  refine List.mem_of_getElem? (i := n - i) ?_
  rw [since, List.getElem?_drop, List.getElem?_take, if_pos (by omega),
    show i + (n - i) = n by omega, h]

theorem exists_of_mem_since (h : message ∈ line.since i) :
    ∃ n, i ≤ n ∧ n < line.taken ∧ line.sent[n]? = some message := by
  obtain ⟨k, hk⟩ := List.mem_iff_getElem?.1 h
  rw [since, List.getElem?_drop, List.getElem?_take] at hk
  split at hk
  · next hlt => exact ⟨i + k, Nat.le_add_right i k, hlt, hk⟩
  · cases hk

/-- A message that is on the way. -/
theorem mem_unread (hn : line.taken ≤ n) (h : line.sent[n]? = some message) :
    message ∈ line.unread := by
  refine List.mem_of_getElem? (i := n - line.taken) ?_
  rw [unread, List.getElem?_drop, show line.taken + (n - line.taken) = n by omega, h]

end Line

section

variable {α β : Type} {f : α → Option β} {messages : List α} {message : α} {value : β}

/-- The last value that messages carry. -/
def lastOf (f : α → Option β) (messages : List α) : Option β := (messages.filterMap f).getLast?

theorem lastOf_concat : lastOf f (messages ++ [message]) = (f message).or (lastOf f messages) := by
  rw [lastOf, List.filterMap_append, List.getLast?_append]
  cases h : f message with
  | none => simp [h, lastOf]
  | some value => simp [h]

/-- Where some message carries a value, there is a last one. -/
theorem lastOf_of_mem (hmem : message ∈ messages) (h : f message = some value) :
    ∃ last, lastOf f messages = some last := by
  have hvalue : value ∈ messages.filterMap f := List.mem_filterMap.2 ⟨message, hmem, h⟩
  exact ⟨_, List.getLast?_eq_some_getLast (List.ne_nil_of_mem hvalue)⟩

end

end Paperclip.Trace
