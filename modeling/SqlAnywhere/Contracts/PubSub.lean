import Mathlib.Data.Int.Notation
import Mathlib.Data.List.Basic

/-!
# The publish/subscribe contract

The statements of the contract (`contracts.rs`), and a subscriber of one channel that reads a batch
past its cursor, advances the cursor, saves it, and starts again from the saved one.

* `Sys.delivered` — events arrive in order, above the cursor, and only trimmed ones are missed
* `trimToLast_iff` — a trim keeps the newest events just when their numbers are close enough
-/

namespace SqlAnywhere.PubSub

open List

variable {π : Type}

/-- A row of `askr_events`. -/
structure Event (π : Type) where
  seq : ℤ
  channel : String
  payload : π
  createdAt : ℤ
  deriving DecidableEq

/-- `askr_events` in the order of its key, the last number `AUTOINCREMENT` gave, and the cursors of
`askr_subscribers`. -/
structure Db (π : Type) where
  events : List (Event π)
  seq : ℤ
  cursors : String → Option ℤ
  sorted : events.Pairwise (·.seq < ·.seq)
  le : ∀ e ∈ events, e.seq ≤ seq

namespace Db

def publish (now : ℤ) (channel : String) (payload : π) (db : Db π) : Db π where
  events := db.events ++ [⟨db.seq + 1, channel, payload, now⟩]
  seq := db.seq + 1
  cursors := db.cursors
  sorted := by
    refine pairwise_append.2 ⟨db.sorted, pairwise_singleton .., fun e he e' he' => ?_⟩
    rw [mem_singleton.1 he']
    exact Int.lt_add_one_of_le (db.le e he)
  le e he := by
    rcases mem_append.1 he with he | he
    · exact Int.le_add_one (db.le e he)
    · exact Int.le_of_eq (congrArg Event.seq (mem_singleton.1 he))

/-- `LIMIT :batch` is no limit when it is negative. -/
def subscribe (channel : String) (cursor batch : ℤ) (db : Db π) : List (Event π) :=
  let rows := db.events.filter fun e => e.channel = channel ∧ cursor < e.seq
  if batch < 0 then rows else rows.take batch.toNat

def saveCursor (name : String) (cursor : ℤ) (db : Db π) : Db π :=
  { db with cursors := Function.update db.cursors name (some cursor) }

/-- `DELETE FROM askr_events` for the rows that do not meet a condition. -/
def keep (db : Db π) (cond : Event π → Bool) : Db π where
  events := db.events.filter cond
  seq := db.seq
  cursors := db.cursors
  sorted := db.sorted.filter _
  le e he := db.le e (mem_filter.1 he).1

/-- What `trim_by_age` leaves. -/
def young (now retention : ℤ) (e : Event π) : Bool := ¬ e.createdAt < now - retention

/-- What `trim_to_last` leaves; `max(seq)` of no rows is `NULL`. -/
def isLast (db : Db π) (keepLast : ℤ) (e : Event π) : Bool :=
  db.events.getLast?.all fun last => ¬ e.seq ≤ last.seq - keepLast

def trimByAge (now retention : ℤ) (db : Db π) : Db π := db.keep (young now retention)

def trimToLast (keepLast : ℤ) (db : Db π) : Db π := db.keep (db.isLast keepLast)

/-- The newest `n` events, or all if there are fewer. -/
def newest (db : Db π) (n : ℕ) : List (Event π) := db.events.drop (db.events.length - n)

/-- The numbers of the newest `n` events are above the greatest one less `n`. -/
def Dense (db : Db π) (n : ℕ) : Prop :=
  ∀ last, db.events.getLast? = some last → ∀ e ∈ db.newest n, last.seq - n < e.seq

end Db

/-! ### Trimming to the last events -/

/-- Numbers that increase along a list leave room for the ones between. -/
theorem seq_add_length_le {e : Event π} {l : List (Event π)} {last : Event π}
    (h : (e :: l).Pairwise (·.seq < ·.seq)) (hlast : (e :: l).getLast? = some last) :
    e.seq + l.length ≤ last.seq := by
  induction l generalizing e with
  | nil => simp_all
  | cons e' l ih =>
    obtain ⟨hlt, htail⟩ := pairwise_cons.1 h
    have h' := ih htail (by simpa using hlast)
    have hfirst := hlt e' (mem_cons_self ..)
    simp only [length_cons]
    omega

theorem seq_le_of_mem_take {l : List (Event π)} {last e : Event π} {n : ℕ}
    (h : l.Pairwise (·.seq < ·.seq)) (hlast : l.getLast? = some last)
    (he : e ∈ l.take (l.length - n)) : e.seq ≤ last.seq - n := by
  obtain ⟨l₁, l₂, hl⟩ := append_of_mem he
  have hsplit : l = l₁ ++ e :: (l₂ ++ l.drop (l.length - n)) := by
    rw [← cons_append, ← append_assoc, ← hl, take_append_drop]
  have hpos : n ≤ l.length := by
    by_contra hlt
    simp [Nat.sub_eq_zero_of_le (Nat.le_of_not_le hlt)] at he
  have hlength : (l₂ ++ l.drop (l.length - n)).length = l₂.length + n := by
    rw [length_append, length_drop]
    omega
  rw [hsplit, getLast?_append_of_ne_nil _ (cons_ne_nil _ _)] at hlast
  rw [hsplit] at h
  have hle := seq_add_length_le (pairwise_append.1 h).2.1 hlast
  omega

/-- **A trim to the last `n` leaves the newest `n` events** just when these are dense. -/
theorem trimToLast_iff (db : Db π) (n : ℕ) :
    (db.trimToLast n).events = db.newest n ↔ db.Dense n := by
  unfold Db.Dense Db.newest
  cases hlast : db.events.getLast? with
  | none => simp [Db.trimToLast, Db.keep, getLast?_eq_none_iff.1 hlast]
  | some last =>
    have hcond : db.isLast n = fun e => decide (last.seq - n < e.seq) := by
      funext e
      simp [Db.isLast, hlast]
    have hold : (db.events.take (db.events.length - n)).filter (db.isLast n) = [] := by
      refine filter_eq_nil_iff.2 fun e he => ?_
      simpa [hcond] using seq_le_of_mem_take db.sorted hlast he
    have hkeep : (db.trimToLast n).events =
        (db.events.drop (db.events.length - n)).filter (db.isLast n) := by
      rw [Db.trimToLast, Db.keep, ← nil_append (filter _ (drop ..)), ← hold, ← filter_append,
        take_append_drop]
    rw [hkeep, filter_eq_self]
    simp [hcond]

/-! ### A subscriber -/

/-- The tables, the cursor of the subscriber and what it started from, with a record: every event
that was published, the ones received before the last start and since, and the ones a trim removed
above the cursor. -/
structure Sys (π : Type) where
  db : Db π
  cursor : ℤ
  start : ℤ
  published : List (Event π)
  earlier : List (Event π)
  session : List (Event π)
  lost : List (Event π)

/-- `batch` reads and advances the cursor; the subscriber may stop before it saves. -/
inductive Action (π : Type)
  | publish (channel : String) (payload : π)
  | batch (size : ℤ)
  | save
  | restart
  | trimByAge (retention : ℤ)
  | trimToLast (keepLast : ℤ)

namespace Sys

variable (name channel : String)

/-- A trim that leaves the events that meet the condition. -/
def trim (s : Sys π) (cond : Event π → Bool) : Sys π :=
  { s with
    db := s.db.keep cond
    lost := s.lost ++ s.db.events.filter fun e => s.cursor < e.seq && !cond e }

/-- The action at the time `now`. -/
def step (s : Sys π) : ℤ × Action π → Sys π
  | (now, .publish channel payload) =>
    { s with
      db := s.db.publish now channel payload
      published := s.published ++ [⟨s.db.seq + 1, channel, payload, now⟩] }
  | (_, .batch size) =>
    let rows := s.db.subscribe channel s.cursor size
    { s with
      cursor := (rows.getLast?.map Event.seq).getD s.cursor
      session := s.session ++ rows }
  | (_, .save) => { s with db := s.db.saveCursor name s.cursor }
  | (_, .restart) =>
    let cursor := (s.db.cursors name).getD 0
    { s with cursor := cursor, start := cursor, earlier := s.earlier ++ s.session, session := [] }
  | (now, .trimByAge retention) => s.trim (Db.young now retention)
  | (_, .trimToLast keepLast) => s.trim (s.db.isLast keepLast)

/-- Nothing is published, and the subscriber starts. -/
def init : Sys π := ⟨⟨[], 0, fun _ => none, .nil, by simp⟩, 0, 0, [], [], [], []⟩

def after (run : List (ℤ × Action π)) : Sys π := run.foldl (step name channel) init

/-- The subscriber received the event, or a trim removed it first. -/
def Got (s : Sys π) (e : Event π) : Prop := e ∈ s.earlier ∨ e ∈ s.session ∨ e ∈ s.lost

/-- What the subscriber has received: since its start the events of its channel in order, none at or
below the cursor it started from, and of the ones up to its cursor it missed only trimmed ones. -/
structure Delivered (s : Sys π) : Prop where
  order : s.session.Pairwise (·.seq < ·.seq)
  above : ∀ e ∈ s.session, e.channel = channel ∧ e ∈ s.published ∧ s.start < e.seq ∧ e.seq ≤ s.cursor
  missed : ∀ e ∈ s.published, e.channel = channel → e.seq ≤ s.cursor → s.Got e

/-- The rows are the next stored events of the channel above the cursor: only such ones, in order,
and one that is stored and left out comes after `size` others. -/
structure Next (db : Db π) (cursor size : ℤ) (rows : List (Event π)) : Prop where
  stored : ∀ e ∈ rows, e ∈ db.events ∧ e.channel = channel ∧ cursor < e.seq
  order : rows.Pairwise (·.seq < ·.seq)
  full : ∀ e ∈ db.events, e.channel = channel → cursor < e.seq →
    e ∈ rows ∨ rows.length = size ∧ ∀ e' ∈ rows, e'.seq < e.seq

/-- With it, what the tables hold. -/
structure Inv (s : Sys π) : Prop extends Delivered channel s where
  saved : 0 ≤ s.cursor ∧ ∀ cursor, s.db.cursors name = some cursor → 0 ≤ cursor ∧ cursor ≤ s.cursor
  stored : ∀ e ∈ s.db.events, e ∈ s.published
  kept : ∀ e ∈ s.published, e.channel = channel → e ∈ s.db.events ∨ s.Got e
  bound : s.cursor ≤ s.db.seq ∧ s.start ≤ s.cursor

variable {name channel} {s : Sys π}

theorem Inv.publish (h : Inv name channel s) (now : ℤ) (c : String) (payload : π) :
    Inv name channel (step name channel s (now, .publish c payload)) := by
  have hcursor : s.cursor < s.db.seq + 1 := Int.lt_add_one_of_le h.bound.1
  refine { h with above := ?_, missed := ?_, stored := ?_, kept := ?_, bound := ⟨?_, h.bound.2⟩ }
  · intro e he
    obtain ⟨hc, hp, hrest⟩ := h.above e he
    exact ⟨hc, mem_append_left _ hp, hrest⟩
  · intro e he hc hle
    rcases mem_append.1 he with he | he
    · exact h.missed e he hc hle
    · rw [mem_singleton.1 he] at hle
      exact absurd hle (Int.not_le.2 hcursor)
  · intro e he
    exact mem_append.2 ((mem_append.1 he).imp_left (h.stored e))
  · intro e he hc
    rcases mem_append.1 he with he | he
    · exact (h.kept e he hc).imp_left (mem_append_left _)
    · exact Or.inl (mem_append_right _ he)
  · exact Int.le_of_lt hcursor

theorem Inv.trim (h : Inv name channel s) (cond : Event π → Bool) :
    Inv name channel (s.trim cond) := by
  have hgot : ∀ e, s.Got e → (s.trim cond).Got e := fun e =>
    Or.imp_right (Or.imp_right (mem_append_left _))
  refine { h with missed := ?_, stored := ?_, kept := ?_ }
  · exact fun e he hc hle => hgot e (h.missed e he hc hle)
  · exact fun e he => h.stored e (mem_filter.1 he).1
  · intro e he hc
    rcases h.kept e he hc with hdb | hold
    · by_cases hcond : cond e = true
      · exact Or.inl (mem_filter.2 ⟨hdb, hcond⟩)
      by_cases hle : e.seq ≤ s.cursor
      · exact Or.inr (hgot e (h.missed e he hc hle))
      · refine Or.inr (Or.inr (Or.inr (mem_append_right _ (mem_filter.2 ⟨hdb, ?_⟩))))
        simpa [hcond] using hle
    · exact Or.inr (hgot e hold)

theorem subscribe_next (db : Db π) (cursor size : ℤ) :
    Next channel db cursor size (db.subscribe channel cursor size) := by
  have hsorted := db.sorted.filter (fun e => decide (Event.channel e = channel ∧ cursor < e.seq))
  obtain ⟨l, hl, hsize⟩ : ∃ l, db.events.filter (fun e => e.channel = channel ∧ cursor < e.seq) =
      db.subscribe channel cursor size ++ l ∧
        (l = [] ∨ (db.subscribe channel cursor size).length = size) := by
    unfold Db.subscribe
    split_ifs with hneg
    · exact ⟨[], by simp, Or.inl rfl⟩
    · refine ⟨_, (take_append_drop ..).symm, ?_⟩
      rw [drop_eq_nil_iff, length_take]
      omega
  rw [hl] at hsorted
  obtain ⟨hrows, -, hafter⟩ := pairwise_append.1 hsorted
  refine ⟨fun e he => ?_, hrows, fun e he hc hlt => ?_⟩
  · have hin := mem_append_left l he
    rw [← hl] at hin
    simpa using hin
  · have hin : e ∈ db.events.filter fun e => e.channel = channel ∧ cursor < e.seq :=
      mem_filter.2 ⟨he, decide_eq_true ⟨hc, hlt⟩⟩
    rw [hl] at hin
    rcases mem_append.1 hin with hrow | hlater
    · exact Or.inl hrow
    · refine Or.inr ⟨hsize.resolve_left (ne_nil_of_mem hlater), fun e' he' => ?_⟩
      exact hafter e' he' e hlater

theorem Inv.batch (h : Inv name channel s) (now size : ℤ) :
    Inv name channel (step name channel s (now, .batch size)) := by
  have hbatch : Next channel s.db s.cursor size _ := subscribe_next s.db s.cursor size
  obtain ⟨hof, hrows, hnext⟩ := hbatch
  simp only [Sys.step]
  generalize s.db.subscribe channel s.cursor size = rows at hof hrows hnext
  rcases eq_nil_or_concat rows with rfl | ⟨front, last, rfl⟩
  · simpa using h
  rw [concat_eq_append] at *
  simp only [getLast?_append, getLast?_singleton, Option.some_or, Option.map_some,
    Option.getD_some]
  obtain ⟨hlast, hlastc, hlt⟩ := hof last (by simp)
  have hle : ∀ e ∈ front ++ [last], e.seq ≤ last.seq := by
    intro e he
    rcases mem_append.1 he with he | he
    · exact Int.le_of_lt ((pairwise_append.1 hrows).2.2 e he last (by simp))
    · exact Int.le_of_eq (congrArg Event.seq (mem_singleton.1 he))
  have hgot : ∀ e, s.Got e → Got { s with session := s.session ++ (front ++ [last]) } e := fun e =>
    Or.imp_right (Or.imp_left (mem_append_left _))
  refine { h with order := ?_, above := ?_, missed := ?_, saved := ?_, kept := ?_, bound := ?_ }
  · refine pairwise_append.2 ⟨h.order, hrows, fun e he e' he' => ?_⟩
    exact Int.lt_of_le_of_lt (h.above e he).2.2.2 (hof e' he').2.2
  · intro e he
    rcases mem_append.1 he with he | he
    · obtain ⟨hc, hp, hstart, hcursor⟩ := h.above e he
      exact ⟨hc, hp, hstart, by simp only; omega⟩
    · obtain ⟨hdb, hc, hcursor⟩ := hof e he
      exact ⟨hc, h.stored e hdb, Int.lt_of_le_of_lt h.bound.2 hcursor, hle e he⟩
  · intro e he hc hseq
    rcases h.kept e he hc with hdb | hold
    · by_cases hcursor : e.seq ≤ s.cursor
      · exact hgot e (h.missed e he hc hcursor)
      · rcases hnext e hdb hc (Int.not_le.1 hcursor) with hrow | ⟨-, hlater⟩
        · exact Or.inr (Or.inl (mem_append_right _ hrow))
        · exact absurd hseq (Int.not_le.2 (hlater last (by simp)))
    · exact hgot e hold
  · refine ⟨by simp only; have := h.saved.1; omega, fun cursor hcursor => ?_⟩
    have := h.saved.2 cursor hcursor
    simp only
    omega
  · exact fun e he hc => (h.kept e he hc).imp_right (hgot e)
  · exact ⟨s.db.le last hlast, by have := h.bound.2; simp only; omega⟩

theorem Inv.step (h : Inv name channel s) (a : ℤ × Action π) :
    Inv name channel (step name channel s a) := by
  obtain ⟨now, a⟩ := a
  cases a with
  | publish c payload => exact h.publish now c payload
  | batch size => exact h.batch now size
  | save =>
    refine { h with saved := ⟨h.saved.1, fun cursor hcursor => ?_⟩ }
    simp only [Sys.step, Db.saveCursor, Function.update_self, Option.some.injEq] at hcursor
    exact hcursor ▸ ⟨h.saved.1, Int.le_refl _⟩
  | restart =>
    have hle : 0 ≤ (s.db.cursors name).getD 0 ∧ (s.db.cursors name).getD 0 ≤ s.cursor := by
      cases hsaved : s.db.cursors name with
      | none => exact ⟨Int.le_refl _, h.saved.1⟩
      | some cursor => exact h.saved.2 cursor hsaved
    have hgot : ∀ e, s.Got e → e ∈ s.earlier ++ s.session ∨ e ∈ [] ∨ e ∈ s.lost := by
      intro e
      simp only [Got, mem_append, not_mem_nil, false_or, or_assoc, imp_self]
    refine { h with
      order := .nil, above := by simp [Sys.step], missed := ?_, saved := ?_, kept := ?_, bound := ?_ }
    · exact fun e he hc hseq => hgot e (h.missed e he hc (Int.le_trans hseq hle.2))
    · refine ⟨hle.1, fun cursor hcursor => ?_⟩
      have hcursor : s.db.cursors name = some cursor := hcursor
      simp only [Sys.step, hcursor, Option.getD_some, Int.le_refl, and_true]
      exact (h.saved.2 cursor hcursor).1
    · exact fun e he hc => (h.kept e he hc).imp_right (hgot e)
    · exact ⟨Int.le_trans hle.2 h.bound.1, Int.le_refl _⟩
  | trimByAge | trimToLast => exact h.trim _

/-- **Delivery and trimming**: after every run the subscriber has received the events of its channel
in order and missed only trimmed ones, and gets the next stored ones with a batch; and a trim to the
last `n` leaves the newest `n` events just when the numbers of these are above the greatest one less
`n`. -/
theorem delivered (run : List (ℤ × Action π)) : let s := after name channel run
    Delivered channel s ∧
      (∀ now size, ∃ rows, (step name channel s (now, .batch size)).session = s.session ++ rows ∧
        Next channel s.db s.cursor size rows) ∧
      ∀ n : ℕ, (s.db.trimToLast n).events = s.db.newest n ↔ s.db.Dense n := by
  have hrun : ∀ s : Sys π, Inv name channel s →
      Inv name channel (run.foldl (step name channel) s) := by
    induction run with
    | nil => exact fun _ h => h
    | cons a run ih => exact fun s h => ih _ (h.step a)
  refine ⟨(hrun init ?_).toDelivered, fun now size => ⟨_, rfl, subscribe_next _ _ _⟩,
    fun n => trimToLast_iff _ n⟩
  refine ⟨⟨List.Pairwise.nil, ?_, ?_⟩, ?_, ?_, ?_, ?_⟩
  all_goals simp [init]

/-- The clock steps back and a trim by age leaves a gap: of two events a trim to the last two leaves
one. -/
theorem gap_trimmed :
    let s := after (π := ℕ) "s" "c" [(9, .publish "c" 1), (1, .publish "c" 2), (9, .publish "c" 3),
      (9, .trimByAge 5)]
    s.db.events.map Event.seq = [1, 3] ∧ (s.db.trimToLast 2).events.map Event.seq = [3] := by
  decide

end Sys

end SqlAnywhere.PubSub
