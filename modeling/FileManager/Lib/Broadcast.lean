/-
A lossy broadcast channel: every receiver has its own place in one
sequence of messages, of which only the last `slots` can still be read.
A receiver that has fallen further behind is told so, once, and moved to
the oldest message there is.

What a receiver has not read (`unread`) is named whether or not it can
still be read: a send adds to it, a message received is its first, and a
receiver with nothing to receive has nothing unread.
-/
import Mathlib.Data.List.Basic

namespace Broadcast

universe u

/-- The messages sent while there was a receiver, oldest first. -/
structure Channel (α : Type u) where
  slots : Nat
  sent : List α

inductive Received (α : Type u)
  | empty
  | lagged
  | message (value : α)

namespace Channel

variable {α : Type u} (channel : Channel α) (next : Nat) {receivers after : Nat} {value : α}

/-- Sends to `receivers` receivers; without any, the message is gone. -/
def send (receivers : Nat) (value : α) : Channel α :=
  if receivers = 0 then channel else { channel with sent := channel.sent ++ [value] }

/-- The place of a new receiver: what is sent from now on. -/
def subscribe : Nat := channel.sent.length

/-- Receives from a place, with the place after it. -/
def recv : Received α × Nat :=
  if channel.slots < channel.sent.length - next then
    (.lagged, channel.sent.length - channel.slots)
  else
    match channel.sent[next]? with
    | none => (.empty, next)
    | some value => (.message value, next + 1)

/-- What a receiver has not read. -/
def unread : List α := channel.sent.drop next

variable {channel next}

@[simp] theorem unread_subscribe : channel.unread channel.subscribe = [] := List.drop_length

theorem unread_send (hreceivers : receivers ≠ 0) (hnext : next ≤ channel.sent.length) :
    (channel.send receivers value).unread next = channel.unread next ++ [value] := by
  unfold send unread
  rw [if_neg hreceivers]
  exact List.drop_append_of_le_length hnext

theorem length_send_le : channel.sent.length ≤ (channel.send receivers value).sent.length := by
  unfold send
  split
  case isTrue => exact Nat.le_refl _
  case isFalse => simp

/-- A message is the first of the unread ones. -/
theorem recv_message (h : channel.recv next = (.message value, after)) :
    channel.unread next = value :: channel.unread after ∧ after ≤ channel.sent.length := by
  unfold recv at h
  split at h
  case isTrue => cases h
  case isFalse =>
    split at h
    case h_1 => cases h
    case h_2 found hget =>
      injection h with hvalue hafter
      injection hvalue with hvalue
      subst hvalue hafter
      obtain ⟨hlt, hfound⟩ := List.getElem?_eq_some_iff.mp hget
      unfold unread
      rw [List.drop_eq_getElem_cons hlt, hfound]
      exact ⟨rfl, hlt⟩

/-- A new receiver gets what is sent next. -/
theorem recv_send_subscribe (hslots : 1 ≤ channel.slots) (hreceivers : receivers ≠ 0) :
    (channel.send receivers value).recv channel.subscribe
      = (.message value, channel.subscribe + 1) := by
  have hnear : ¬ channel.slots < (channel.sent ++ [value]).length - channel.sent.length := by
    rw [List.length_append, List.length_singleton]
    omega
  unfold send recv subscribe
  rw [if_neg hreceivers, if_neg hnear]
  simp

/-- A receiver with nothing to receive has read everything. -/
theorem recv_empty (h : channel.recv next = (.empty, after)) :
    channel.unread next = [] ∧ after = next := by
  unfold recv at h
  split at h
  case isTrue => cases h
  case isFalse =>
    split at h
    case h_2 => cases h
    case h_1 hget =>
      injection h with _ hafter
      exact ⟨List.drop_eq_nil_of_le (List.getElem?_eq_none_iff.mp hget), hafter.symm⟩

/-- A new receiver has nothing to receive. -/
theorem recv_subscribe : channel.recv channel.subscribe = (.empty, channel.subscribe) := by
  unfold recv subscribe
  rw [if_neg (by simp)]
  simp

/-- A receiver that is told of a lag has something unread. -/
theorem recv_lagged (h : channel.recv next = (.lagged, after)) :
    channel.sent ≠ [] ∧ after ≤ channel.sent.length := by
  unfold recv at h
  split at h
  case isTrue hlag =>
    injection h with _ hafter
    subst hafter
    refine ⟨fun hnil => ?_, Nat.sub_le _ _⟩
    rw [hnil] at hlag
    simp at hlag
  case isFalse =>
    split at h <;> cases h

end Channel

end Broadcast
