import Mathlib.Data.List.Basic

/-!
# Writes that replace each other

A write `w` puts the value `val w` under the key `key w`, over whatever was there.  Of many writes only
the newest under each key matters, and those can be made in any order.

* `write` — the store after a list of writes, oldest first
* `newest` — of a list of writes, newest first, the newest under each key
* `write_newest` — writing the newest ones, newest first, is writing all of them, oldest first
* `newest_append`, `newest_newest` — the newest of the newest
-/

namespace Overwrite

open List
open Function (update_self update_of_ne)

variable {φ κ α : Type*} [DecidableEq κ] (key : φ → κ) (val : φ → α)

/-- The store after the writes. -/
def write (f : κ → Option α) : List φ → κ → Option α
  | [] => f
  | w :: ws => write (Function.update f (key w) (some (val w))) ws

/-- The newest write under each key that has not been seen, of writes with the newest first. -/
def newest (seen : List κ) : List φ → List φ
  | [] => []
  | w :: ws =>
    if key w ∈ seen then newest seen ws else w :: newest (key w :: seen) ws

variable {key val} {seen : List κ} {ws : List φ} {k : κ}

theorem write_append (f : κ → Option α) (ws ws' : List φ) :
    write key val f (ws ++ ws') = write key val (write key val f ws) ws' := by
  induction ws generalizing f with
  | nil => rfl
  | cons w ws ih => exact ih _

theorem write_concat (f : κ → Option α) (w : φ) :
    write key val f (ws ++ [w]) =
      Function.update (write key val f ws) (key w) (some (val w)) := by
  rw [write_append]
  rfl

/-- What is under a key depends on what was under that key only. -/
theorem write_congr {f g : κ → Option α} (h : f k = g k) :
    write key val f ws k = write key val g ws k := by
  induction ws generalizing f g with
  | nil => exact h
  | cons w ws ih =>
    refine ih ?_
    by_cases hk : k = key w
    · rw [hk, update_self, update_self]
    · rw [update_of_ne hk, update_of_ne hk, h]

theorem write_of_notMem (f : κ → Option α) (hk : k ∉ ws.map key) :
    write key val f ws k = f k := by
  induction ws generalizing f with
  | nil => rfl
  | cons w ws ih =>
    rw [map_cons, mem_cons, not_or] at hk
    rw [write, ih _ hk.2, update_of_ne hk.1]

theorem write_of_mem (f g : κ → Option α) (hk : k ∈ ws.map key) :
    write key val f ws k = write key val g ws k := by
  induction ws generalizing f g with
  | nil => cases hk
  | cons w ws ih =>
    rw [write, write]
    by_cases hmem : k ∈ ws.map key
    · exact ih _ _ hmem
    · have hkey : k = key w := (mem_cons.1 hk).resolve_right hmem
      rw [write_of_notMem _ hmem, write_of_notMem _ hmem, hkey, update_self, update_self]

theorem mem_keys_newest :
    k ∈ (newest key seen ws).map key ↔ k ∈ ws.map key ∧ k ∉ seen := by
  induction ws generalizing seen with
  | nil => simp [newest]
  | cons w ws ih =>
    rw [newest]
    split
    · next hw =>
      rw [ih, map_cons, mem_cons]
      constructor
      · rintro ⟨hk, hs⟩
        exact ⟨Or.inr hk, hs⟩
      · rintro ⟨rfl | hk, hs⟩
        · exact absurd hw hs
        · exact ⟨hk, hs⟩
    · next hw =>
      rw [map_cons, mem_cons, ih, map_cons, mem_cons, mem_cons, not_or]
      constructor
      · rintro (rfl | ⟨hk, -, hs⟩)
        · exact ⟨Or.inl rfl, hw⟩
        · exact ⟨Or.inr hk, hs⟩
      · rintro ⟨rfl | hk, hs⟩
        · exact Or.inl rfl
        · by_cases hkw : k = key w
          · exact Or.inl hkw
          · exact Or.inr ⟨hk, hkw, hs⟩

theorem newest_sublist (seen : List κ) : (newest key seen ws).Sublist ws := by
  induction ws generalizing seen with
  | nil => exact List.Sublist.refl _
  | cons w ws ih =>
    rw [newest]
    split
    · exact (ih seen).cons w
    · exact (ih (key w :: seen)).cons_cons w

theorem mem_of_mem_newest {w : φ} (h : w ∈ newest key seen ws) : w ∈ ws :=
  (newest_sublist seen).subset h

variable (f : κ → Option α) {seen' : List κ}
include f

/-- What is written again, with more after it, is the same as what is written once. -/
theorem write_again (ws ws' : List φ) :
    write key val (write key val f ws) (ws ++ ws') = write key val f (ws ++ ws') := by
  funext k
  by_cases hk : k ∈ (ws ++ ws').map key
  · exact write_of_mem _ _ hk
  · rw [write_of_notMem _ hk, write_of_notMem _ hk]
    rw [map_append, mem_append, not_or] at hk
    exact write_of_notMem _ hk.1

theorem write_newest_of_notMem (hk : k ∉ seen) :
    write key val f (newest key seen ws) k = write key val f ws.reverse k := by
  induction ws generalizing f seen with
  | nil => rfl
  | cons w ws ih =>
    rw [newest, reverse_cons, write_concat]
    split
    · next hw =>
      have hne : k ≠ key w := by
        rintro rfl
        exact hk hw
      rw [ih f hk, update_of_ne hne]
    · rw [write]
      by_cases hkw : k = key w
      · subst hkw
        have hseen : key w ∉ (newest key (key w :: seen) ws).map key :=
          fun hmem => (mem_keys_newest.1 hmem).2 (mem_cons_self ..)
        rw [write_of_notMem _ hseen, update_self, update_self]
      · have hnot : k ∉ key w :: seen := by
          rw [mem_cons, not_or]
          exact ⟨hkw, hk⟩
        rw [ih _ hnot, update_of_ne hkw]
        exact write_congr (update_of_ne hkw ..)

/-- **The newest writes are enough**, in the order of the list they were taken from. -/
theorem write_newest :
    write key val f (newest key [] ws) = write key val f ws.reverse := by
  funext k
  exact write_newest_of_notMem f not_mem_nil

omit f

/-! ### Writes that carry more -/

theorem write_map {g : φ → φ} (hkey : ∀ w, key (g w) = key w) (hval : ∀ w, val (g w) = val w)
    (f : κ → Option α) : write key val f (ws.map g) = write key val f ws := by
  induction ws generalizing f with
  | nil => rfl
  | cons w ws ih => rw [map_cons, write, write, hkey, hval, ih]

theorem newest_map {g : φ → φ} (hkey : ∀ w, key (g w) = key w) (seen : List κ) :
    newest key seen (ws.map g) = (newest key seen ws).map g := by
  induction ws generalizing seen with
  | nil => rfl
  | cons w ws ih =>
    rw [map_cons, newest, newest, hkey]
    split
    · exact ih seen
    · rw [map_cons, ih]

/-! ### The newest of the newest -/

theorem newest_congr (h : ∀ k, k ∈ seen ↔ k ∈ seen') :
    newest key seen ws = newest key seen' ws := by
  induction ws generalizing seen seen' with
  | nil => rfl
  | cons w ws ih =>
    have hcons : ∀ k, k ∈ key w :: seen ↔ k ∈ key w :: seen' := by
      intro k
      rw [mem_cons, mem_cons, h k]
    rw [newest, newest, ih h, ih hcons]
    simp only [h (key w)]

theorem newest_append (ws ws' : List φ) :
    newest key seen (ws ++ ws') =
      newest key seen ws ++ newest key (ws.map key ++ seen) ws' := by
  induction ws generalizing seen with
  | nil => rfl
  | cons w ws ih =>
    rw [cons_append, newest, newest]
    split
    · next hw =>
      rw [ih]
      congr 1
      refine newest_congr (fun k => ?_)
      simp only [mem_append, map_cons, mem_cons]
      constructor
      · rintro (hk | hk)
        · exact Or.inl (Or.inr hk)
        · exact Or.inr hk
      · rintro ((rfl | hk) | hk)
        · exact Or.inr hw
        · exact Or.inl hk
        · exact Or.inr hk
    · rw [ih, cons_append]
      congr 2
      refine newest_congr (fun k => ?_)
      simp only [mem_append, map_cons, mem_cons]
      exact or_left_comm.trans or_assoc.symm

theorem newest_eq_nil (h : ∀ w ∈ ws, key w ∈ seen) :
    newest key seen ws = [] := by
  induction ws with
  | nil => rfl
  | cons w ws ih =>
    rw [newest, if_pos (h w (mem_cons_self ..))]
    exact ih fun w hw => h w (mem_cons_of_mem _ hw)

/-- Writes under keys that have newer ones can be left out. -/
theorem newest_append_seen {ws ws' : List φ} (h : ∀ w ∈ ws', key w ∈ ws.map key) (ws'' : List φ) :
    newest key seen (ws ++ (ws' ++ ws'')) = newest key seen (ws ++ ws'') := by
  rw [newest_append, newest_append, newest_append ws ws'',
    newest_eq_nil fun w hw => mem_append_left _ (h w hw), nil_append]
  congr 1
  refine newest_congr (fun k => ?_)
  simp only [mem_append, mem_map]
  constructor
  · rintro (⟨w, hw, rfl⟩ | hk)
    · exact .inl (mem_map.1 (h w hw))
    · exact hk
  · exact .inr

theorem nodup_keys_newest (seen : List κ) :
    ((newest key seen ws).map key).Nodup := by
  induction ws generalizing seen with
  | nil => exact nodup_nil
  | cons w ws ih =>
    rw [newest]
    split
    · exact ih seen
    rw [map_cons, nodup_cons]
    refine ⟨?_, ih _⟩
    intro hmem
    exact (mem_keys_newest.1 hmem).2 (mem_cons_self ..)

theorem newest_newest (h : ∀ k ∈ seen, k ∈ seen') :
    newest key seen' (newest key seen ws) = newest key seen' ws := by
  induction ws generalizing seen seen' with
  | nil => rfl
  | cons w ws ih =>
    have hcons : ∀ k ∈ key w :: seen, k ∈ key w :: seen' := by
      intro k hk
      rcases mem_cons.1 hk with rfl | hk
      · exact mem_cons_self ..
      · exact mem_cons_of_mem _ (h k hk)
    by_cases hseen : key w ∈ seen
    · rw [newest, if_pos hseen, ih h]
      conv_rhs => rw [newest, if_pos (h _ hseen)]
    · rw [newest, if_neg hseen]
      by_cases hseen' : key w ∈ seen'
      · have hmore : ∀ k ∈ key w :: seen, k ∈ seen' := forall_mem_cons.2 ⟨hseen', h⟩
        rw [newest, if_pos hseen', ih hmore]
        conv_rhs => rw [newest, if_pos hseen']
      · rw [newest, if_neg hseen', ih hcons]
        conv_rhs => rw [newest, if_neg hseen']

theorem newest_newest_append (ws ws' : List φ) :
    newest key [] (newest key [] ws ++ newest key [] ws') = newest key [] (ws ++ ws') := by
  rw [newest_append, newest_append, newest_newest (fun _ hk => hk)]
  congr 1
  rw [newest_newest (fun _ hk => absurd hk not_mem_nil)]
  refine newest_congr (fun k => ?_)
  rw [mem_append, mem_append, mem_keys_newest]
  simp only [not_mem_nil, not_false_eq_true, and_true]

end Overwrite
