import Mathlib.Data.List.Basic

/-!
# A bounded broadcast channel

A sender never waits: the channel keeps the last `capacity` messages, and a receiver that has fallen
further behind is told so instead of getting its next message.

* `Channel`, `Channel.Receiver` — what a receiver gets next, with the laws that programs rely on
* `Channel.oldestLeft` — the receiver that goes on with the oldest message that is left
-/

/-- Everything that was sent since a receiver subscribed, and whether the sender is gone. -/
structure Channel (μ : Type*) where
  sent : List μ
  closed : Bool

namespace Channel

inductive Received (μ : Type*)
  | message (m : μ)
  | lagged (missed : ℕ)
  | closed

/-- What a receiver that has read up to `pos` gets next and how far it has read then, or `none` while
it waits. -/
structure Receiver (μ : Type*) (capacity : ℕ) where
  recv : Channel μ → ℕ → Option (Received μ × ℕ)
  recv_message : ∀ {ch pos m pos'}, recv ch pos = some (.message m, pos') →
    ch.sent[pos]? = some m ∧ pos' = pos + 1
  recv_lagged : ∀ {ch pos missed pos'}, recv ch pos = some (.lagged missed, pos') →
    pos + capacity < ch.sent.length
  recv_closed : ∀ {ch pos pos'}, recv ch pos = some (.closed, pos') → ch.closed = true
  /-- who has something left to read gets the next message or is told that it lags -/
  recv_of_unread : ∀ {ch pos m}, ch.sent[pos]? = some m →
    (∃ missed pos', recv ch pos = some (.lagged missed, pos')) ∨
      recv ch pos = some (.message m, pos + 1)

def oldestLeft (μ : Type*) (capacity : ℕ) : Receiver μ capacity where
  recv ch pos :=
    if pos + capacity < ch.sent.length then
      some (.lagged (ch.sent.length - capacity - pos), ch.sent.length - capacity)
    else
      match ch.sent[pos]? with
      | some m => some (.message m, pos + 1)
      | none => if ch.closed then some (.closed, pos) else none
  recv_message h := by
    split at h
    · cases h
    split at h
    · next m' hm =>
      cases h
      exact ⟨hm, rfl⟩
    · split at h <;> cases h
  recv_lagged h := by
    split at h
    · assumption
    · split at h
      · cases h
      · split at h <;> cases h
  recv_closed h := by
    split at h
    · cases h
    split at h
    · cases h
    · split_ifs at h
      assumption
  recv_of_unread h := by
    split
    · exact Or.inl ⟨_, _, rfl⟩
    · rw [h]
      exact Or.inr rfl

end Channel
