import SqlAnywhere.Live

/-!
# The versions of tracked tables

A statement moves the version of every tracked table whose contents it changes, unless it changes
the schema.

* `fire_bumped`, `fire_tracked` — what the triggers do to the version table
* `exec_evolves` — what a statement does to the versions of any list of tracked tables
-/

namespace SqlAnywhere.Live

open List

/-! ### Names -/

theorem nocase_trigger (table suffix : String) :
    nocase (trigger table suffix) =
      nocase "sqlanywhere_live_" ++ (nocase table ++ nocase ("_" ++ suffix)) := by
  change nocase ("sqlanywhere_live_" ++ table ++ "_" ++ suffix) = _
  rw [nocase_append, nocase_append, nocase_append, nocase_append, append_assoc, append_assoc]

theorem nocase_suffix_length (e : Event) : (nocase ("_" ++ e.suffix)).length = 4 := by
  cases e <;> decide

theorem suffix_inj {e e' : Event} (h : nocase ("_" ++ e.suffix) = nocase ("_" ++ e'.suffix)) :
    e = e' := by
  cases e <;> cases e' <;> first | rfl | exact absurd h (by decide)

theorem trigger_inj {t t' : String} {e e' : Event}
    (h : nocase (trigger t e.suffix) = nocase (trigger t' e'.suffix)) :
    nocase t = nocase t' ∧ e = e' := by
  rw [nocase_trigger, nocase_trigger] at h
  have h' := append_cancel_left h
  obtain ⟨ht, he⟩ := append_inj' h'
    ((nocase_suffix_length e).trans (nocase_suffix_length e').symm)
  exact ⟨ht, suffix_inj he⟩

/-! ### Rows that grow -/

/-- The rows of the version table after some updates. -/
def Grows (rows rows' : List (String × ℕ)) : Prop :=
  List.Forall₂ (fun a b => a.1 = b.1 ∧ a.2 ≤ b.2) rows rows'

/-- The same, with an update of the row of the table `x`. -/
def Bumped (x : List Char) (rows rows' : List (String × ℕ)) : Prop :=
  List.Forall₂ (fun a b => a.1 = b.1 ∧ a.2 ≤ b.2 ∧ (nocase a.1 = x → a.2 < b.2)) rows rows'

theorem Grows.refl (rows : List (String × ℕ)) : Grows rows rows :=
  forall₂_same.2 fun _ _ => ⟨rfl, le_rfl⟩

section Rows

variable {x : List Char} {names : List String} {rows rows' rows'' : List (String × ℕ)}

theorem Bumped.grows (h : Bumped x rows rows') : Grows rows rows' :=
  h.imp fun _ _ hab => ⟨hab.1, hab.2.1⟩

theorem forall₂_trans {α : Type*} {R S T : α → α → Prop} {l l' l'' : List α}
    (hRS : ∀ a b c, R a b → S b c → T a c) (h : List.Forall₂ R l l')
    (h' : List.Forall₂ S l' l'') : List.Forall₂ T l l'' := by
  induction h generalizing l'' with
  | nil => cases h'; exact .nil
  | cons hab _ ih =>
    cases h' with
    | cons hbc htail => exact .cons (hRS _ _ _ hab hbc) (ih htail)

theorem Grows.trans (h : Grows rows rows') (h' : Grows rows' rows'') : Grows rows rows'' :=
  forall₂_trans (fun _ _ _ hab hbc => ⟨hab.1.trans hbc.1, hab.2.trans hbc.2⟩) h h'

theorem Grows.bumped (h : Grows rows rows') (h' : Bumped x rows' rows'') : Bumped x rows rows'' :=
  forall₂_trans (fun _ _ _ hab hbc => ⟨hab.1.trans hbc.1, hab.2.trans hbc.2.1,
    fun hx => lt_of_le_of_lt hab.2 (hbc.2.2 (hab.1 ▸ hx))⟩) h h'

theorem Bumped.trans (h : Bumped x rows rows') (h' : Grows rows' rows'') : Bumped x rows rows'' :=
  forall₂_trans (fun _ _ _ hab hbc => ⟨hab.1.trans hbc.1, hab.2.1.trans hbc.2,
    fun hx => lt_of_lt_of_le (hab.2.2 hx) hbc.2⟩) h h'

theorem Bumped.of_absent (h : ∀ r ∈ rows, nocase r.1 ≠ x) : Bumped x rows rows :=
  forall₂_same.2 fun r hr => ⟨rfl, le_rfl, fun hx => absurd hx (h r hr)⟩

theorem bump_bumped (table : String) :
    Bumped (nocase table) rows (bump table rows) := by
  induction rows with
  | nil => exact .nil
  | cons r rows ih =>
    refine .cons ?_ ih
    dsimp only
    split_ifs with hr
    · exact ⟨rfl, Nat.le_succ _, fun _ => Nat.lt_succ_self _⟩
    · exact ⟨rfl, le_rfl, fun hx => absurd hx hr⟩

variable (h : Grows rows rows')
include h

theorem Grows.map_fst : rows'.map (·.1) = rows.map (·.1) := by
  induction h with
  | nil => rfl
  | cons hab _ ih => rw [map_cons, map_cons, ih, hab.1]

theorem Grows.versions : Grows (versions names rows) (versions names rows') :=
  rel_filter (fun a b hab => by simp only [hab.1]) h

theorem Grows.sum_le : (rows.map (·.2)).sum ≤ (rows'.map (·.2)).sum := by
  induction h with
  | nil => exact le_rfl
  | cons hab _ ih =>
    rw [map_cons, map_cons, sum_cons, sum_cons]
    omega

omit h

theorem Bumped.sum_lt (h : Bumped x rows rows') (hx : ∃ r ∈ rows, nocase r.1 = x) :
    (rows.map (·.2)).sum < (rows'.map (·.2)).sum := by
  induction h with
  | nil => obtain ⟨r, hr, -⟩ := hx; cases hr
  | cons hab htail ih =>
    rw [map_cons, map_cons, sum_cons, sum_cons]
    obtain ⟨r, hr, hrx⟩ := hx
    rcases mem_cons.1 hr with rfl | hr
    · have hlt := hab.2.2 hrx
      have hle := (Bumped.grows htail).sum_le
      omega
    · have hlt := ih ⟨r, hr, hrx⟩
      omega

theorem Bumped.versions (h : Bumped x rows rows') :
    Bumped x (versions names rows) (versions names rows') :=
  rel_filter (fun a b hab => by simp only [hab.1]) h

end Rows

/-! ### Triggers -/

section Triggers

variable {ts active : List LiveTrigger} {on : String} {event : Event} {g : LiveTrigger}
  {f : List (String × ℕ) → LiveTrigger → List (String × ℕ)} {rows : List (String × ℕ)}

theorem mem_firing : g ∈ firing ts active on event ↔
    g ∈ ts ∧ nocase g.on = nocase on ∧ g.event = event ∧ g ∉ active := by
  simp [firing, mem_filter, and_assoc]

variable (hf : ∀ rows g, Grows rows (f rows g)) {l : List LiveTrigger}
include hf

/-- Whatever each trigger of a list does, if it only updates rows so does the list. -/
theorem foldl_grows : Grows rows (l.foldl f rows) := by
  induction l generalizing rows with
  | nil => exact Grows.refl rows
  | cons g l ih => exact (hf rows g).trans ih

theorem foldl_bumped {x : List Char} (hg : ∀ rows, Bumped x rows (f rows g)) (hmem : g ∈ l) :
    Bumped x rows (l.foldl f rows) := by
  induction l generalizing rows with
  | nil => cases hmem
  | cons g' l ih =>
    rcases mem_cons.1 hmem with rfl | hmem
    · exact (hg rows).trans (foldl_grows hf)
    · exact (hf rows g').bumped (ih hmem)

/-- If each trigger that does something updates the row of `x`, so does the list. -/
theorem foldl_id_or_bumped {x : List Char}
    (hg : ∀ g ∈ l, ∀ rows, f rows g = rows ∨ Bumped x rows (f rows g)) :
    l.foldl f rows = rows ∨ Bumped x rows (l.foldl f rows) := by
  induction l generalizing rows with
  | nil => exact Or.inl rfl
  | cons g l ih =>
    rw [foldl_cons]
    have ih := @ih (f rows g) fun g' hg' => hg g' (mem_cons_of_mem _ hg')
    rcases hg g mem_cons_self rows with hid | hb
    · rwa [hid] at ih ⊢
    · exact Or.inr (hb.trans (foldl_grows hf))

omit hf

theorem fire_grows {depth : ℕ} : Grows rows (fire ts depth active on event rows) := by
  induction depth generalizing active on event rows with
  | zero => exact Grows.refl rows
  | succ depth ih =>
    refine foldl_grows fun rows g => ?_
    split_ifs
    · exact (bump_bumped g.table).grows.trans ih
    · exact Grows.refl rows

theorem fire_bumped (depth : ℕ) (hg : g ∈ firing ts active on event) :
    Bumped (nocase g.table) rows (fire ts (depth + 1) active on event rows) := by
  refine foldl_bumped (fun rows g' => ?_) (fun rows => ?_) hg
  · split_ifs
    · exact (bump_bumped g'.table).grows.trans fire_grows
    · exact Grows.refl rows
  · split_ifs with hany
    · exact (bump_bumped g.table).trans fire_grows
    · refine Bumped.of_absent fun r hr hx => hany (any_eq_true.2 ⟨r, hr, ?_⟩)
      exact decide_eq_true hx

/-- When the version table is tracked itself, triggers that change it update its own row. -/
theorem fire_tracked (depth : ℕ) (hg : g ∈ firing ts [] trackedTable .update)
    (hgt : nocase g.table = nocase trackedTable) :
    fire ts (depth + 2) [] on event rows = rows ∨
      Bumped (nocase trackedTable) rows (fire ts (depth + 2) [] on event rows) := by
  refine foldl_id_or_bumped (fun rows g' => ?_) (fun g' hg' rows => ?_)
  · split_ifs
    · exact (bump_bumped g'.table).grows.trans fire_grows
    · exact Grows.refl rows
  · split_ifs
    · refine Or.inr ?_
      by_cases hsame : nocase g'.table = nocase trackedTable
      · rw [← hsame]
        exact (bump_bumped g'.table).trans fire_grows
      · -- its update is a write to the version table, and fires `g`
        have hfires : g ∈ firing ts [g'] trackedTable .update := by
          obtain ⟨hmem, hon, hev, -⟩ := mem_firing.1 hg
          refine mem_firing.2 ⟨hmem, hon, hev, fun hin => hsame ?_⟩
          rw [← mem_singleton.1 hin, hgt]
        rw [← hgt]
        exact (bump_bumped g'.table).grows.bumped (fire_bumped depth hfires)
    · exact Or.inl rfl

end Triggers

/-! ### Tracked tables -/

section Db

variable {db db' : Db} {t : String} {names : List String} {s : Schema} {n : ℕ} {table on : String}
  {st : Stmt} {event : Event} {rows : List (String × ℕ)}

theorem hasTriggers_congr {t t' : String} (h : nocase t = nocase t') :
    s.hasTriggers t = s.hasTriggers t' := by
  simp only [Schema.hasTriggers, nocase_trigger, h]

theorem exists_trigger (h : s.hasTriggers t = true) (e : Event) :
    ∃ g ∈ s.triggers, nocase g.on = nocase t ∧ g.event = e ∧ nocase g.table = nocase t := by
  set own := s.triggers.filter (fun g => decide (nocase g.on = nocase t) &&
    triggers.any (fun e => decide (g.name = nocase (trigger t e.suffix)))) with hown
  have hlen : own.length = triggers.length := by
    simpa [Schema.hasTriggers, hown] using h
  have hnodup : (own.map LiveTrigger.name).Nodup := s.nodup.sublist (filter_sublist.map _)
  -- three different names among three names are all of them
  have hsub : own.map LiveTrigger.name ⊆ triggers.map (fun e => nocase (trigger t e.suffix)) := by
    intro n hn
    obtain ⟨g, hg, rfl⟩ := mem_map.1 hn
    have hg' := (mem_filter.1 hg).2
    rw [Bool.and_eq_true, any_eq_true] at hg'
    obtain ⟨-, e', he', hname⟩ := hg'
    exact mem_map.2 ⟨e', he', (of_decide_eq_true hname).symm⟩
  have hperm := (subperm_of_subset hnodup hsub).perm_of_length_le
    (by rw [length_map, length_map, hlen])
  have hmem : nocase (trigger t e.suffix) ∈ own.map LiveTrigger.name := by
    rw [hperm.mem_iff]
    exact mem_map.2 ⟨e, by cases e <;> simp [triggers], rfl⟩
  obtain ⟨g, hg, hname⟩ := mem_map.1 hmem
  obtain ⟨hg', hcond⟩ := mem_filter.1 hg
  rw [Bool.and_eq_true] at hcond
  obtain ⟨htable, hev⟩ := trigger_inj hname
  exact ⟨g, hg', of_decide_eq_true hcond.1, hev, htable⟩

theorem fired_grows : Grows rows (s.fired on event rows) := fire_grows

theorem fired_bumped (h : s.hasTriggers t = true) (hon : nocase on = nocase t) :
    Bumped (nocase t) rows (s.fired on event rows) := by
  obtain ⟨g, hg, hgon, hev, htable⟩ := exists_trigger h event
  rw [← htable]
  exact fire_bumped _ (mem_firing.2 ⟨hg, hgon.trans hon.symm, hev, not_mem_nil⟩)

theorem fired_tracked (h : s.hasTriggers t = true) (ht : nocase t = nocase trackedTable) :
    s.fired on event rows = rows ∨ Bumped (nocase t) rows (s.fired on event rows) := by
  obtain ⟨g, hg, hgon, hev, htable⟩ := exists_trigger h .update
  obtain ⟨depth, hdepth⟩ : ∃ depth, s.triggers.length = depth + 1 :=
    Nat.exists_eq_succ_of_ne_zero (length_pos_of_mem hg).ne'
  rw [Schema.fired, hdepth, ht]
  exact fire_tracked depth (mem_firing.2 ⟨hg, hgon.trans ht, hev, not_mem_nil⟩) (htable.trans ht)

theorem isTracked_iff :
    isTracked db t = true ↔ (∃ r ∈ db.tracked.getD [], r.1 = t) ∧ db.schema.hasTriggers t = true := by
  rw [isTracked, Bool.and_eq_true, any_eq_true]
  simp only [beq_iff_eq]

/-- What becomes of some tracked tables as long as the schema stays: they stay tracked, their
versions only grow, and as long as these do not move their contents stay. -/
structure Later (names : List String) (db db' : Db) : Prop where
  tracked : ∀ t ∈ names, isTracked db' t = true
  length_eq : (versions names (db'.tracked.getD [])).length =
    (versions names (db.tracked.getD [])).length
  sum_le : ((versions names (db.tracked.getD [])).map (·.2)).sum ≤
    ((versions names (db'.tracked.getD [])).map (·.2)).sum
  same : ((versions names (db.tracked.getD [])).map (·.2)).sum =
    ((versions names (db'.tracked.getD [])).map (·.2)).sum → ∀ t ∈ names, SameContents db db' t

/-- One file comes from another by statements: the schema version grew, or the schema is the same
and every tracked table is later. -/
def Evolves (db db' : Db) : Prop :=
  db.schemaVersion < db'.schemaVersion ∨ db.schemaVersion = db'.schemaVersion ∧
    db.schema = db'.schema ∧
      ∀ names : List String, (∀ t ∈ names, isTracked db t = true) → Later names db db'

theorem SameContents.refl (db : Db) (t : String) : SameContents db db t := by
  unfold SameContents
  split_ifs <;> rfl

theorem SameContents.trans {db'' : Db} (h : SameContents db db' t) (h' : SameContents db' db'' t) :
    SameContents db db'' t := by
  unfold SameContents at *
  split_ifs with ht
  · rw [if_pos ht] at h h'
    exact h.trans h'
  · rw [if_neg ht] at h h'
    exact h.trans h'

theorem Evolves.refl (db : Db) : Evolves db db :=
  Or.inr ⟨rfl, rfl, fun _ h => ⟨h, rfl, le_rfl, fun _ t _ => SameContents.refl db t⟩⟩

theorem Evolves.trans {db'' : Db} (h : Evolves db db') (h' : Evolves db' db'') :
    Evolves db db'' := by
  rcases h with hlt | ⟨hv, hs, hl⟩
  · rcases h' with hlt' | ⟨hv', -⟩
    · exact Or.inl (hlt.trans hlt')
    · exact Or.inl (hv' ▸ hlt)
  · rcases h' with hlt' | ⟨hv', hs', hl'⟩
    · exact Or.inl (hv ▸ hlt')
    refine Or.inr ⟨hv.trans hv', hs.trans hs', fun names hn => ?_⟩
    have h₁ := hl names hn
    have h₂ := hl' names h₁.tracked
    refine ⟨h₂.tracked, h₂.length_eq.trans h₁.length_eq, h₁.sum_le.trans h₂.sum_le, ?_⟩
    intro hsum t ht
    have hle := h₁.sum_le
    have hle' := h₂.sum_le
    exact (h₁.same (by omega) t ht).trans (h₂.same (by omega) t ht)

theorem mem_versions {trs : List (String × ℕ)} {r : String × ℕ} (hr : r ∈ trs) (ht : r.1 ∈ names) :
    r ∈ versions names trs :=
  mem_filter.2 ⟨hr, any_eq_true.2 ⟨r.1, ht, decide_eq_true rfl⟩⟩

theorem later_of_grows {trs trs' : List (String × ℕ)} (hdb : db.tracked = some trs)
    (hdb' : db'.tracked = some trs') (hs : db.schema = db'.schema)
    (hn : ∀ t ∈ names, isTracked db t = true)
    (hv : Grows (versions names trs) (versions names trs'))
    (hc : ∀ t ∈ names, SameContents db db' t ∨
      Bumped (nocase t) (versions names trs) (versions names trs')) : Later names db db' := by
  have hrow : ∀ t ∈ names, ∃ r ∈ versions names trs, r.1 = t := by
    intro t ht
    obtain ⟨⟨r, hr, hrt⟩, -⟩ := isTracked_iff.1 (hn t ht)
    rw [hdb] at hr
    exact ⟨r, mem_versions hr (hrt ▸ ht), hrt⟩
  have hgetD : db.tracked.getD [] = trs := by rw [hdb]; rfl
  have hgetD' : db'.tracked.getD [] = trs' := by rw [hdb']; rfl
  refine ⟨fun t ht => ?_, ?_, ?_, fun hsum t ht => ?_⟩
  · obtain ⟨r, hr, hrt⟩ := hrow t ht
    have hmem : r.1 ∈ (versions names trs').map (·.1) := by
      rw [hv.map_fst]
      exact mem_map_of_mem hr
    obtain ⟨r', hr', heq⟩ := mem_map.1 hmem
    refine isTracked_iff.2 ⟨⟨r', ?_, heq.trans hrt⟩, hs ▸ (isTracked_iff.1 (hn t ht)).2⟩
    rw [hgetD']
    exact (mem_filter.1 hr').1
  · rw [hgetD, hgetD']
    exact (List.Forall₂.length_eq hv).symm
  · rw [hgetD, hgetD']
    exact hv.sum_le
  · rw [hgetD, hgetD'] at hsum
    rcases hc t ht with hsame | hb
    · exact hsame
    · obtain ⟨r, hr, hrt⟩ := hrow t ht
      exact absurd hsum (hb.sum_lt ⟨r, hr, hrt ▸ rfl⟩).ne

theorem later_nil : Later [] db db' := by
  have hnil : ∀ trs, versions [] trs = [] := fun trs => filter_eq_nil_iff.2 (by simp)
  refine ⟨by simp, ?_, ?_, by simp⟩
  all_goals rw [hnil, hnil]

/-- A write to the version table that changed its rows to `mid`, and then its triggers.  The rows
of the tables in `names` are not among those inserted or deleted. -/
theorem later_of_fired {trs mid : List (String × ℕ)} (hdb : db.tracked = some trs)
    (hn : ∀ t ∈ names, isTracked db t = true) (hmid : versions names mid = versions names trs) :
    Later names db
      { db with tracked := some (db.schema.fired trackedTable event mid) } := by
  refine later_of_grows hdb rfl rfl hn (hmid ▸ fired_grows.versions) fun t ht => ?_
  by_cases htt : nocase t = nocase trackedTable
  · exact Or.inr (hmid ▸ (fired_bumped (isTracked_iff.1 (hn t ht)).2 htt.symm).versions)
  · refine Or.inl ?_
    rw [SameContents, if_neg htt]

/-- What a statement relies on: the row of a table is not deleted from the version table while the
table has its three triggers. -/
def Stmt.Sound (db : Db) : Stmt → Prop
  | .deleteTracked table => db.schema.hasTriggers table = false
  | _ => True

theorem write_evolves {rows : List (List Value)}
    (h : (Stmt.write table event rows).exec db = some (db', n)) : n ≠ 0 ∧ Evolves db db' := by
  have htable : nocase table ≠ nocase trackedTable := by
    intro htable
    simp [Stmt.exec, if_pos htable] at h
  rw [Stmt.exec, if_neg htable] at h
  cases htr : db.tracked with
  | none =>
    simp only [htr] at h
    split_ifs at h
    cases h
    refine ⟨Nat.one_ne_zero, Or.inr ⟨rfl, rfl, fun names hn => ?_⟩⟩
    -- without a version table no table is tracked
    obtain rfl : names = [] := by
      refine eq_nil_iff_forall_not_mem.2 fun t ht => ?_
      obtain ⟨⟨r, hr, -⟩, -⟩ := isTracked_iff.1 (hn t ht)
      simp [htr] at hr
    exact later_nil
  | some trs =>
    simp only [htr] at h
    cases h
    refine ⟨by omega, Or.inr ⟨rfl, rfl, fun names hn => ?_⟩⟩
    refine later_of_grows htr rfl rfl hn fired_grows.versions fun t ht => ?_
    have htrig := (isTracked_iff.1 (hn t ht)).2
    by_cases htt : nocase t = nocase trackedTable
    · rcases fired_tracked htrig htt with heq | hb
      · refine Or.inl ?_
        rw [SameContents, if_pos htt, heq, htr]
      · exact Or.inr hb.versions
    · by_cases hsame : nocase table = nocase t
      · exact Or.inr (fired_bumped htrig hsame).versions
      · refine Or.inl ?_
        rw [SameContents, if_neg htt]
        exact (Function.update_of_ne (Ne.symm hsame) _ _).symm

theorem insertTracked_evolves (h : (Stmt.insertTracked table).exec db = some (db', n)) :
    db' = db ∨ n ≠ 0 ∧ Evolves db db' := by
  obtain ⟨trs, htr, h⟩ := Option.bind_eq_some_iff.1 h
  split at h
  · cases h
    exact Or.inl rfl
  · rename_i name hfind
    split_ifs at h with hany
    · cases h
      exact Or.inl rfl
    · cases h
      refine Or.inr ⟨by omega, Or.inr ⟨rfl, rfl, fun names hn => later_of_fired htr hn ?_⟩⟩
      -- the new row is of a table without one, so of none of `names`
      rw [versions, filter_append]
      refine append_right_eq_self.2 (filter_eq_nil_iff.2 fun r hr hname => hany ?_)
      obtain ⟨t, ht, hrt⟩ := any_eq_true.1 hname
      obtain ⟨⟨r', hr', hrt'⟩, -⟩ := isTracked_iff.1 (hn t ht)
      rw [htr] at hr'
      refine any_eq_true.2 ⟨r', hr', decide_eq_true ?_⟩
      rw [hrt', ← of_decide_eq_true hrt, mem_singleton.1 hr]

theorem deleteTracked_evolves (h : (Stmt.deleteTracked table).exec db = some (db', n)) :
    db' = db ∨ n ≠ 0 ∧ (db.schema.hasTriggers table = false → Evolves db db') := by
  obtain ⟨trs, htr, h⟩ := Option.bind_eq_some_iff.1 h
  simp only at h
  split_ifs at h
  · cases h
    exact Or.inl rfl
  · cases h
    refine Or.inr ⟨by omega, fun hs => Or.inr ⟨rfl, rfl, fun names hn => later_of_fired htr hn ?_⟩⟩
    rw [versions, filter_filter]
    refine filter_congr fun r _ => ?_
    rw [Bool.and_eq_left_iff_imp]
    intro hname
    obtain ⟨t, ht, hrt⟩ := any_eq_true.1 hname
    have htrig := (isTracked_iff.1 (hn t ht)).2
    simp only [Bool.not_eq_true', decide_eq_false_iff_not]
    intro heq
    simp [hasTriggers_congr ((of_decide_eq_true hrt).symm.trans heq), hs] at htrig

/-- A statement changes nothing, changes the schema, or writes rows. -/
theorem exec_cases (h : st.exec db = some (db', n)) : db' = db ∨
    db.schemaVersion < db'.schemaVersion ∨ n ≠ 0 ∧ (st.Sound db → Evolves db db') := by
  cases st <;> simp only [Stmt.exec] at h
  case write table event rows => exact .inr (.inr ((write_evolves h).imp_right fun he _ => he))
  case createTracked pages =>
    split at h
    · cases h
      exact .inl rfl
    · cases h
      exact .inr (.inl (Nat.lt_succ_self _))
  case insertTracked table =>
    exact (insertTracked_evolves h).imp_right fun he => .inr (he.imp_right fun he _ => he)
  case createTrigger table event | dropTrigger table event =>
    split_ifs at h
    · cases h
      exact .inr (.inl (Nat.lt_succ_self _))
    · cases h
      exact .inl rfl
  case deleteTracked table => exact (deleteTracked_evolves h).imp_right .inr
  case alter db₁ =>
    split_ifs at h with hlt
    cases h
    exact .inr (.inl hlt)

/-- **What a statement does**: the schema version grows, or every tracked table is later. -/
theorem exec_evolves (hs : st.Sound db) (h : st.exec db = some (db', n)) :
    Evolves db db' := by
  rcases exec_cases h with rfl | hlt | ⟨-, he⟩
  · exact Evolves.refl db'
  · exact Or.inl hlt
  · exact he hs

/-! ### Untracking on its own -/

theorem dropTrigger_gone (h : (Stmt.dropTrigger t event).exec db = some (db', n)) :
    db'.schema.hasTrigger t event = false := by
  simp only [Stmt.exec] at h
  split_ifs at h with hhas
  · cases h
    rw [Schema.hasTrigger, any_eq_false]
    intro g hg
    simpa using (mem_filter.1 hg).2
  · cases h
    exact Bool.eq_false_iff.2 hhas

theorem hasTrigger_of_subset {s s' : Schema} (h : s'.triggers ⊆ s.triggers)
    (hno : s.hasTrigger t event = false) : s'.hasTrigger t event = false := by
  rw [Schema.hasTrigger, any_eq_false] at hno ⊢
  exact fun g hg => hno g (h hg)

theorem hasTriggers_of_hasTrigger (h : s.hasTrigger t event = false) : s.hasTriggers t = false := by
  by_contra hall
  obtain ⟨g, hg, -, hev, htable⟩ := exists_trigger (Bool.not_eq_false _ ▸ hall) event
  rw [Schema.hasTrigger, any_eq_false] at h
  refine h g hg (decide_eq_true ?_)
  rw [LiveTrigger.name, hev, nocase_trigger, nocase_trigger, htable]

theorem after_eq_some (h : st.after db = some db') :
    ∃ n, st.exec db = some (db', n) := by
  obtain ⟨⟨db₁, n⟩, hexec, heq⟩ := Option.map_eq_some_iff.1 h
  obtain rfl : db₁ = db' := heq
  exact ⟨n, hexec⟩

/-- On their own, one after the other, the statements of `untrack` are sound: the triggers go
before the row does. -/
theorem untrack_sound (pages : List ℤ) :
    Run.Along Stmt.after Stmt.Sound db (untrack table pages) := by
  refine ⟨trivial, fun db₁ _ => ⟨trivial, fun db₂ _ => ⟨trivial, fun db₃ h₃ =>
    ⟨trivial, fun db₄ h₄ => ⟨?_, fun _ _ => trivial⟩⟩⟩⟩⟩
  obtain ⟨_, h₃⟩ := after_eq_some h₃
  obtain ⟨_, h₄⟩ := after_eq_some h₄
  have hgone := dropTrigger_gone h₃
  have hsub : db₄.schema.triggers ⊆ db₃.schema.triggers := by
    simp only [Stmt.exec] at h₄
    split at h₄
    all_goals
      cases h₄
      exact fun g hg => hg
  exact hasTriggers_of_hasTrigger (hasTrigger_of_subset hsub hgone)

end Db

end SqlAnywhere.Live
