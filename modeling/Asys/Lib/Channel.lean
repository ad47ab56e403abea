import Mathlib.Data.List.Infix
import Mathlib.Data.List.Nodup

/-! # Ordered channels

    One direction of a connection, as its two ends should see it: messages go in at one end and come
    out at the other one by one, in order. What a channel has delivered is a prefix of what was sent
    by construction, so a protocol that follows a channel step by step delivers in order. -/

/-- What was sent, and how much of it has been taken out. -/
structure Channel (α : Type*) where
  sent : List α
  taken : ℕ
  taken_le : taken ≤ sent.length

namespace Channel

variable {α : Type*}

def empty : Channel α := ⟨[], 0, Nat.le_refl 0⟩

def send (c : Channel α) (a : α) : Channel α :=
  ⟨c.sent ++ [a], c.taken, by
    rw [List.length_append]
    exact Nat.le_add_right_of_le c.taken_le⟩

/-- The message that is to come out next. -/
def next (c : Channel α) : Option α := c.sent[c.taken]?

/-- The next message comes out; a channel that has none stays as it is. -/
def receive (c : Channel α) : Channel α :=
  if h : c.taken < c.sent.length then ⟨c.sent, c.taken + 1, h⟩ else c

def delivered (c : Channel α) : List α := c.sent.take c.taken

@[simp] theorem send_sent (c : Channel α) (a : α) : (c.send a).sent = c.sent ++ [a] := rfl

theorem delivered_prefix_sent (c : Channel α) : c.delivered <+: c.sent := List.take_prefix _ _

@[simp] theorem delivered_length (c : Channel α) : c.delivered.length = c.taken := by
  rw [delivered, List.length_take]
  exact Nat.min_eq_left c.taken_le

@[simp] theorem delivered_send (c : Channel α) (a : α) : (c.send a).delivered = c.delivered :=
  List.take_append_of_le_length c.taken_le

theorem taken_lt_of_next {c : Channel α} {a : α} (h : c.next = some a) : c.taken < c.sent.length :=
  (List.getElem?_eq_some_iff.mp h).1

theorem receive_of_next {c : Channel α} {a : α} (h : c.next = some a) :
    c.receive.sent = c.sent ∧ c.receive.taken = c.taken + 1 ∧
      c.receive.delivered = c.delivered ++ [a] := by
  have hlt := taken_lt_of_next h
  have hc : c.receive = ⟨c.sent, c.taken + 1, hlt⟩ := dif_pos hlt
  refine ⟨by rw [hc], by rw [hc], ?_⟩
  rw [hc]
  obtain ⟨_, rfl⟩ := List.getElem?_eq_some_iff.mp h
  exact (List.take_append_getElem hlt).symm

end Channel
