import Mathlib.Data.List.Dedup
import SqlAnywhere.Live.Tracked

/-!
# A live query that finds nothing new has nothing to report

The counters of a live query move with everything that can change its result: `Advances` is what
the file of a connection and its counters can do, `Trails` says that what the live query last saw
lies behind them, and `Current` that its rows are current as long as they have not moved.

* `Watched` — the tables to watch are those the query reads, all tracked
* `trails_advances`, `current_advances` — what a live query knows survives what others do
* `refresh_fresh` — whenever a refresh returns, the rows are the query's result
-/

namespace SqlAnywhere.Live

open List Option

/-! ### What the query reads -/

/-- The query opens exactly these tables, and all of them are tracked. -/
structure Watched (Q : Query) (db : Db) (names : List String) : Prop where
  opened : ∃ ops, Q.explain db.schema = .ok ops ∧ Live.opened db.schema ops = some names
  ne_nil : names ≠ []
  tracked : ∀ t ∈ names, isTracked db t = true

section Reads

variable {Q : Query} {db db' : Db} {names : List String}

theorem exists_of_mapM_eq_some {α β : Type*} {f : α → Option β} {l : List α} {bs : List β} {a : α}
    (h : l.mapM f = some bs) (ha : a ∈ l) : ∃ b ∈ bs, f a = some b := by
  induction l generalizing bs with
  | nil => cases ha
  | cons a' l ih =>
    rw [mapM_cons] at h
    obtain ⟨b, hb, h⟩ := bind_eq_some_iff.1 h
    obtain ⟨bs', hbs', h⟩ := bind_eq_some_iff.1 h
    cases h
    rcases mem_cons.1 ha with rfl | ha
    · exact ⟨b, mem_cons_self, hb⟩
    · obtain ⟨b', hb', hf⟩ := ih hbs' ha
      exact ⟨b', mem_cons_of_mem _ hb', hf⟩

theorem opened_spec {s : Schema} {ops : List Op} (h : opened s ops = some names) :
    ∀ op ∈ ops, op.opcode ≠ "VOpen" ∧ (op.opens = true → op.foreign = false ∧
      ∃ t ∈ names, s.tableAt op.p2 = some t) := by
  unfold opened at h
  split_ifs at h with hany
  obtain ⟨ts, hts, rfl⟩ := map_eq_some_iff.1 h
  intro op hop
  have hop' : ¬ (op.opcode == "VOpen" || (op.opens && op.foreign)) = true :=
    fun hbad => hany (any_eq_true.2 ⟨op, hop, hbad⟩)
  simp only [Bool.or_eq_true, beq_iff_eq, Bool.and_eq_true, not_or, not_and] at hop'
  refine ⟨hop'.1, fun hopens => ⟨Bool.eq_false_iff.2 (hop'.2 hopens), ?_⟩⟩
  obtain ⟨t, ht, hat⟩ := exists_of_mapM_eq_some hts (mem_filter.2 ⟨hop, hopens⟩)
  exact ⟨t, (mem_insertionSort _).2 (mem_dedup.2 ht), hat⟩

/-- The result of a query is the same in every file in which the tables it watches are. -/
theorem Watched.result_eq (h : Watched Q db names) (hs : db.schema = db'.schema)
    (hc : ∀ t ∈ names, SameContents db db' t) : Q.result db = Q.result db' := by
  obtain ⟨ops, hops, hopened⟩ := h.opened
  have hspec := opened_spec hopened
  refine Q.reads db db' ops hs hops (fun op hop => (hspec op hop).1) fun op hop hopens => ?_
  obtain ⟨hown, t, ht, hat⟩ := (hspec op hop).2 hopens
  exact ⟨hown, t, hat, hc t ht⟩

end Reads

/-! ### What others do -/

/-- What can become of the file a connection sees and of its count of changes. -/
structure Advances (v v' : View) (n n' : ℕ) : Prop where
  evolves : Evolves v.db v'.db
  dataVersion_le : v.dataVersion ≤ v'.dataVersion
  total_le : n ≤ n'
  same : v.dataVersion = v'.dataVersion → n = n' →
    v'.db = v.db ∨ v.db.schemaVersion < v'.db.schemaVersion

section Advances

variable {Q : Query} {live : LiveQuery} {v v' v'' : View} {n n' n'' : ℕ} {names : List String}

theorem Evolves.schemaVersion_le {db db' : Db} (h : Evolves db db') :
    db.schemaVersion ≤ db'.schemaVersion := by
  rcases h with hlt | ⟨heq, -⟩
  · exact hlt.le
  · exact heq.le

theorem Advances.refl (v : View) (h : n ≤ n') : Advances v v n n' :=
  ⟨Evolves.refl _, le_rfl, h, fun _ _ => Or.inl rfl⟩

theorem Advances.trans (h : Advances v v' n n') (h' : Advances v' v'' n' n'') :
    Advances v v'' n n'' := by
  refine ⟨h.evolves.trans h'.evolves, h.dataVersion_le.trans h'.dataVersion_le,
    h.total_le.trans h'.total_le, fun hv hn => ?_⟩
  have hv₁ := h.dataVersion_le
  have hv₂ := h'.dataVersion_le
  have hn₁ := h.total_le
  have hn₂ := h'.total_le
  rcases h.same (by omega) (by omega) with heq | hlt
  · rcases h'.same (by omega) (by omega) with heq' | hlt'
    · exact Or.inl (heq'.trans heq)
    · exact Or.inr (heq ▸ hlt')
  · exact Or.inr (lt_of_lt_of_le hlt h'.evolves.schemaVersion_le)

/-- What the live query last saw lies behind the counters.  As long as the schema has not changed,
the tables it watches are those the query reads. -/
def Trails (Q : Query) (live : LiveQuery) (v : View) (n : ℕ) : Prop :=
  live.seen.schemaVersion < v.db.schemaVersion ∨ live.seen.schemaVersion = v.db.schemaVersion ∧
    match live.watch, live.seen.changes with
    | .file, .file dataVersion totalChanges => dataVersion ≤ v.dataVersion ∧ totalChanges ≤ n
    | .tables names, .tables sum count => Watched Q v.db names ∧
        count = (versions names (v.db.tracked.getD [])).length ∧
        sum ≤ ((versions names (v.db.tracked.getD [])).map (·.2)).sum
    | _, _ => False

/-- The rows of the live query are the result of the query. -/
def Fresh (Q : Query) (live : LiveQuery) (v : View) : Prop :=
  Q.result v.db = .ok (live.columns, live.rows)

/-- The rows are current as long as the counters have not moved. -/
def Current (Q : Query) (live : LiveQuery) (v : View) (n : ℕ) : Prop :=
  counters live.watch v n = .ok live.seen → Fresh Q live v

theorem Watched.of_later {db db' : Db} (h : Watched Q db names)
    (hs : db.schema = db'.schema) (hl : Later names db db') : Watched Q db' names :=
  ⟨hs ▸ h.opened, h.ne_nil, hl.tracked⟩

theorem trails_advances (h : Trails Q live v n) (ha : Advances v v' n n') :
    Trails Q live v' n' := by
  rcases h with hlt | ⟨heq, hm⟩
  · exact Or.inl (lt_of_lt_of_le hlt ha.evolves.schemaVersion_le)
  rcases ha.evolves with hlt | ⟨hv, hs, hlater⟩
  · exact Or.inl (heq ▸ hlt)
  refine Or.inr ⟨heq.trans hv, ?_⟩
  split at hm
  · exact ⟨hm.1.trans ha.dataVersion_le, hm.2.trans ha.total_le⟩
  · obtain ⟨hw, hcount, hsum⟩ := hm
    have hl := hlater _ hw.tracked
    exact ⟨hw.of_later hs hl, hcount.trans hl.length_eq.symm, hsum.trans hl.sum_le⟩
  · exact hm

theorem counters_tables_iff {seen : Seen} :
    counters (.tables names) v n = .ok seen ↔ v.db.tracked.isSome = true ∧
      seen = ⟨v.db.schemaVersion, .tables
        ((versions names (v.db.tracked.getD [])).map (·.2)).sum
        (versions names (v.db.tracked.getD [])).length⟩ := by
  unfold counters
  cases htr : v.db.tracked with
  | none => simp
  | some rows =>
    simp only [Except.ok.injEq, isSome_some, getD_some, true_and]
    exact eq_comm

theorem Watched.isSome {db : Db} (h : Watched Q db names) :
    db.tracked.isSome = true := by
  obtain ⟨t, ht⟩ := exists_mem_of_ne_nil names h.ne_nil
  obtain ⟨⟨r, hr, -⟩, -⟩ := isTracked_iff.1 (h.tracked t ht)
  cases htr : db.tracked with
  | none => rw [htr] at hr; cases hr
  | some trs => rfl

theorem counters_schemaVersion {watch : Watch} {seen : Seen} (h : counters watch v n = .ok seen) :
    seen.schemaVersion = v.db.schemaVersion := by
  cases watch with
  | file => cases h; rfl
  | tables names => rw [(counters_tables_iff.1 h).2]

/-- **What a live query knows survives what others do**: its rows stay current as long as the
counters do not move. -/
theorem current_advances (ht : Trails Q live v n) (hc : Current Q live v n)
    (ha : Advances v v' n n') : Current Q live v' n' := by
  intro hnow
  have hsv := counters_schemaVersion hnow
  rcases ht with hlt | ⟨heq, hm⟩
  · have hle := ha.evolves.schemaVersion_le
    omega
  · cases hw : live.watch with
    | file =>
      rw [hw] at hnow hm
      have hseen := Except.ok.inj hnow
      rw [← hseen] at hm
      -- neither counter moved, so the file is the same
      have hdv : v.dataVersion = v'.dataVersion := le_antisymm ha.dataVersion_le hm.1
      have hn : n = n' := le_antisymm ha.total_le hm.2
      have hdb : v'.db = v.db := by
        rcases ha.same hdv hn with hdb | hlt
        · exact hdb
        · omega
      have hfresh := hc (by rw [hw, ← hseen, counters, hdb, hdv, hn])
      rwa [Fresh, hdb]
    | tables names =>
      rw [hw] at hnow hm
      obtain ⟨-, hseen⟩ := counters_tables_iff.1 hnow
      rw [hseen] at hm heq
      obtain ⟨hwatched, hcount, hsum⟩ := hm
      rcases ha.evolves with hlt | ⟨-, hs, hlater⟩
      · exact absurd heq (Nat.ne_of_gt hlt)
      have hl := hlater names hwatched.tracked
      have hsum' := le_antisymm hl.sum_le hsum
      have hbefore : counters live.watch v n = .ok live.seen := by
        rw [hw, hseen, counters_tables_iff, hl.length_eq, hsum']
        exact ⟨hwatched.isSome, by rw [← heq]⟩
      rw [Fresh, ← hwatched.result_eq hs (hl.same hsum')]
      exact hc hbefore

end Advances

/-! ### The invariant -/

/-- What holds of the live query at each point of its calls, against a view of the file. -/
def KnowsAt (Q : Query) (live : LiveQuery) (call : Call) (v : View) (n : ℕ) : Prop :=
  match call with
  | .none | .reread true => True
  | .idle => Trails Q live v n ∧ Current Q live v n
  | .resolving | .reread false => live.seen.schemaVersion < v.db.schemaVersion
  | .running _ => Trails Q live v n

theorem knowsAt_advances {Q : Query} {live : LiveQuery} {call : Call} {v v' : View} {n n' : ℕ}
    (h : KnowsAt Q live call v n) (ha : Advances v v' n n') : KnowsAt Q live call v' n' := by
  match call, h with
  | .none, _ | .reread true, _ => trivial
  | .idle, h => exact ⟨trails_advances h.1 ha, current_advances h.1 h.2 ha⟩
  | .resolving, h | .reread false, h => exact lt_of_lt_of_le h ha.evolves.schemaVersion_le
  | .running _, h => exact trails_advances h ha

/-- The invariant of the system.  A transaction that writes can be rolled back as long as the live
query took over nothing it read in it: what it knows then holds of the committed file too. -/
structure Inv (Q : Query) (s : Sys) : Prop where
  view : KnowsAt Q s.live s.call s.view s.totalChanges
  base : ∀ db, s.txn = .writing db false →
    KnowsAt Q s.live s.call ⟨s.file, s.commits⟩ s.totalChanges
  snapshot : ∀ db v, s.txn = .reading db v →
    Advances ⟨db, v⟩ ⟨s.file, s.commits⟩ s.totalChanges s.totalChanges ∧
      (v = s.commits → s.file = db)

/-- What a step relies on.  A rollback is not of a transaction that the live query took something
over from; when the counters are read again, the tables to watch are still those the query reads,
all tracked; and a refresh does not fail to run the query or to compare its result by key. -/
def Sound (Q : Query) (s : Sys) : Action → Prop
  | .stmt st => st.Sound s.view.db
  | .foreign sts => Run.Along Stmt.after Stmt.Sound s.file sts
  | .rollback => ∀ db, s.txn ≠ .writing db true
  | .next =>
      match s.call with
      | .reread _ => ∀ names, s.live.watch = .tables names → Watched Q s.view.db names
      | .running false => ∃ columns rows, Q.result s.view.db = .ok (columns, rows) ∧
          ∀ key, s.live.key = some key → ∀ row ∈ s.live.rows ++ rows, ∀ i ∈ key, i < row.length
      | _ => True
  | .fail _ => s.call ≠ .running false
  | _ => True

section Steps

variable {Q : Query} {s s' : Sys} {d : Option Diff} {new : Bool} {sts : List Stmt} {st : Stmt}
  {live : LiveQuery} {returned : Option (Except Error (Option Diff))} {db db' : Db} {call : Call}
  {rows : List (List Value)}

/-- What a step leaves: the invariant, and rows that are the query's result if a refresh has
returned. -/
structure Right (Q : Query) (s : Sys) : Prop where
  inv : Inv Q s
  fresh : ∀ d, s.returned = some (.ok d) → Fresh Q s.live s.view

theorem Inv.right (h : Inv Q s) (hnone : s.returned = none) : Right Q s :=
  ⟨h, fun d hd => by simp [hnone] at hd⟩

theorem right_of_none (htxn : s.txn = .none) (hnone : s.returned = none)
    (hknows : KnowsAt Q s.live s.call s.view s.totalChanges) : Right Q s := by
  refine Inv.right ⟨hknows, fun db hdb => ?_, fun db v hdb => ?_⟩ hnone
  all_goals
    simp [htxn] at hdb

theorem right_pin (h : Inv Q s) (hnone : s.returned = none) : Right Q s.pin := by
  unfold Sys.pin
  split
  swap
  · exact h.right hnone
  rename_i htxn
  have hview : s.view = ⟨s.file, s.commits⟩ := by rw [Sys.view, htxn]
  refine Inv.right ⟨?_, (by rintro _ ⟨⟩), fun db v hdb => ?_⟩ hnone
  · have hknows := h.view
    rw [hview] at hknows
    exact hknows
  · cases hdb
    exact ⟨Advances.refl _ le_rfl, fun _ => rfl⟩

theorem returned_touch (s : Sys) : s.pin.touch.returned = s.returned := by
  obtain ⟨_, _, txn⟩ := s
  cases txn <;> rfl

theorem live_touch (s : Sys) : s.pin.touch.live = s.live := by
  obtain ⟨_, _, txn⟩ := s
  cases txn <;> rfl

theorem right_touch (h : Inv Q s)
    (hknows : KnowsAt Q live call s.view s.totalChanges)
    (hfresh : ∀ d, returned = some (.ok d) → Fresh Q live s.view) :
    Right Q { s.pin.touch with live, call, returned } := by
  obtain ⟨file, commits, txn, n, live₀, call₀, returned₀⟩ := s
  cases txn with
  | none =>
    exact ⟨⟨hknows, (by rintro _ ⟨⟩), (by rintro _ _ ⟨⟩)⟩, hfresh⟩
  | begun =>
    refine ⟨⟨hknows, (by rintro _ ⟨⟩), fun db v hdb => ?_⟩, hfresh⟩
    cases hdb
    exact ⟨Advances.refl _ le_rfl, fun _ => rfl⟩
  | reading db v =>
    refine ⟨⟨hknows, (by rintro _ ⟨⟩), fun db' v' hdb => ?_⟩, hfresh⟩
    cases hdb
    exact h.snapshot db v rfl
  | writing db touched =>
    exact ⟨⟨hknows, (by rintro _ ⟨⟩), (by rintro _ _ ⟨⟩)⟩, hfresh⟩

/-- A call goes on. -/
theorem right_touching (h : Inv Q s) (hnone : s.returned = none)
    (hknows : KnowsAt Q live call s.view s.totalChanges) :
    Right Q { s.pin.touch with live, call } :=
  right_touch h hknows fun d hd => by simp [returned_touch, hnone] at hd

theorem exec_advances {k : ℕ} (hs : st.Sound db)
    (h : st.exec db = some (db', k)) (dataVersion n : ℕ) :
    Advances ⟨db, dataVersion⟩ ⟨db', dataVersion⟩ n (n + k) := by
  refine ⟨exec_evolves hs h, le_rfl, Nat.le_add_right n k, fun _ hn => ?_⟩
  have hk : k = 0 := by omega
  exact (exec_cases h).imp_right fun hcase => hcase.resolve_right fun he => he.1 hk

theorem right_own (hs : st.Sound s.view.db) (h : Inv Q s) (hnone : s.returned = none)
    (hstep : s.own st = some s') : Right Q s' := by
  unfold Sys.own at hstep
  split_ifs at hstep with hidle
  · cases hstep
    exact right_pin h hnone
  · obtain ⟨⟨db', k⟩, hexec, hstep⟩ := bind_eq_some_iff.1 hstep
    obtain ⟨file, commits, txn, n, live, call, returned⟩ := s
    have hadv := fun v => exec_advances hs hexec v n
    cases txn with
    | none =>
      cases hstep
      exact right_of_none rfl hnone (knowsAt_advances h.view (hadv commits))
    | begun =>
      cases hstep
      refine Inv.right ⟨knowsAt_advances h.view (hadv commits), fun _ hdb => ?_,
        (by rintro _ _ ⟨⟩)⟩ hnone
      exact knowsAt_advances h.view (Advances.refl _ (Nat.le_add_right n k))
    | reading db v =>
      simp only at hstep
      split_ifs at hstep with hv
      cases hstep
      subst hv
      refine Inv.right ⟨knowsAt_advances h.view (hadv v), fun _ hdb => ?_,
        (by rintro _ _ ⟨⟩)⟩ hnone
      -- a snapshot that is not behind is the file
      obtain rfl : file = db := (h.snapshot db v rfl).2 rfl
      exact knowsAt_advances h.view (Advances.refl _ (Nat.le_add_right n k))
    | writing db touched =>
      cases hstep
      refine Inv.right ⟨knowsAt_advances h.view (hadv commits), fun _ hdb => ?_,
        (by rintro _ _ ⟨⟩)⟩ hnone
      cases hdb
      exact knowsAt_advances (h.base db rfl) (Advances.refl _ (Nat.le_add_right n k))

theorem evolves_of_along
    (hs : Run.Along Stmt.after Stmt.Sound db sts) (h : Run.exec Stmt.after db sts = some db') :
    Evolves db db' := by
  refine Run.exec_invariant (I := Evolves db) (fun db₁ st db₂ hI hok hst => ?_)
    (Evolves.refl db) hs h
  obtain ⟨_, hexec⟩ := after_eq_some hst
  exact hI.trans (exec_evolves hok hexec)

theorem right_foreign (hs : Run.Along Stmt.after Stmt.Sound s.file sts) (h : Inv Q s)
    (hnone : s.returned = none) (hstep : s.foreign sts = some s') : Right Q s' := by
  obtain ⟨file, commits, txn, n, live, call, returned⟩ := s
  have hadv : ∀ db', Run.exec Stmt.after file sts = some db' →
      Advances ⟨file, commits⟩ ⟨db', commits + 1⟩ n n := fun db' hexec =>
    ⟨evolves_of_along hs hexec, Nat.le_succ commits, le_rfl, fun hv _ => by
      have hv' : commits = commits + 1 := hv
      omega⟩
  cases txn with
  | none =>
    obtain ⟨db', hexec, rfl⟩ := map_eq_some_iff.1 hstep
    exact right_of_none rfl hnone (knowsAt_advances h.view (hadv db' hexec))
  | begun =>
    obtain ⟨db', hexec, rfl⟩ := map_eq_some_iff.1 hstep
    exact Inv.right ⟨knowsAt_advances h.view (hadv db' hexec), (by rintro _ ⟨⟩),
      (by rintro _ _ ⟨⟩)⟩ hnone
  | reading db v =>
    obtain ⟨db', hexec, rfl⟩ := map_eq_some_iff.1 hstep
    refine Inv.right ⟨h.view, (by rintro _ ⟨⟩), fun db₁ v₁ hdb => ?_⟩ hnone
    cases hdb
    have hsnap := (h.snapshot db v rfl).1
    refine ⟨hsnap.trans (hadv db' hexec), fun hv => ?_⟩
    have hle : v ≤ commits := hsnap.dataVersion_le
    have hv' : v = commits + 1 := hv
    omega
  | writing db touched => cases hstep

theorem right_commit (h : Inv Q s) (hnone : s.returned = none) (hstep : s.commit = some s') :
    Right Q s' := by
  obtain ⟨_, _, txn⟩ := s
  cases txn with
  | none => cases hstep
  | begun | writing =>
    cases hstep
    exact right_of_none rfl hnone h.view
  | reading db v =>
    cases hstep
    exact right_of_none rfl hnone (knowsAt_advances h.view (h.snapshot db v rfl).1)

theorem right_rollback (hs : ∀ db, s.txn ≠ .writing db true) (h : Inv Q s)
    (hnone : s.returned = none) (hstep : s.rollback = some s') : Right Q s' := by
  obtain ⟨_, _, txn⟩ := s
  cases txn with
  | none => cases hstep
  | begun =>
    cases hstep
    exact right_of_none rfl hnone h.view
  | reading db v =>
    cases hstep
    exact right_of_none rfl hnone (knowsAt_advances h.view (h.snapshot db v rfl).1)
  | writing db touched =>
    cases hstep
    cases touched with
    | true => exact absurd rfl (hs db)
    | false => exact right_of_none rfl hnone (h.base db rfl)

/-! ### The steps of the live query -/

/-- The live query has seen the counters as they are. -/
theorem trails_of_counters {v : View} {n : ℕ} {seen : Seen}
    (hseen : counters live.watch v n = .ok seen)
    (hw : ∀ names, live.watch = .tables names → Watched Q v.db names) :
    Trails Q { live with seen } v n := by
  refine Or.inr ⟨counters_schemaVersion hseen, ?_⟩
  cases hwatch : live.watch with
  | file =>
    rw [hwatch] at hseen
    cases hseen
    exact ⟨le_rfl, le_rfl⟩
  | tables names =>
    rw [hwatch] at hseen
    obtain ⟨-, rfl⟩ := counters_tables_iff.1 hseen
    exact ⟨hw names hwatch, rfl, le_rfl⟩

theorem knowsAt_failed {v : View} {n : ℕ}
    (h : live.seen.schemaVersion < v.db.schemaVersion) : KnowsAt Q live .idle v n := by
  refine ⟨Or.inl h, fun hnow => ?_⟩
  have hsv := counters_schemaVersion hnow
  omega

theorem inv_call (h : Inv Q s)
    (hcall : ∀ v, KnowsAt Q s.live s.call v s.totalChanges →
      KnowsAt Q s.live call v s.totalChanges) : Inv Q { s with call, returned } :=
  ⟨hcall _ h.view, fun db hdb => hcall _ (h.base db hdb), h.snapshot⟩

theorem inv_forget (h : Inv Q s) : Inv Q { s with returned := none } :=
  ⟨h.view, h.base, h.snapshot⟩

variable (h : Inv Q s) (hnone : s.returned = none)
include h hnone

theorem right_failed {e : Error} (hs : s.call ≠ .running false) : Right Q (s.failed e) := by
  unfold Sys.failed
  split
  · exact h.right hnone
  · rename_i hcall
    exact ⟨inv_call h fun v hv => by rwa [hcall] at hv, by rintro _ ⟨⟩⟩
  · rename_i hcall
    exact ⟨inv_call h fun v hv => knowsAt_failed (by rwa [hcall] at hv), by rintro _ ⟨⟩⟩
  · rename_i hcall
    exact ⟨inv_call h fun v hv => knowsAt_failed (by rwa [hcall] at hv), by rintro _ ⟨⟩⟩
  · rename_i hcall
    exact absurd hcall hs
  · exact Inv.right ⟨trivial, fun _ _ => trivial, h.snapshot⟩ hnone
  · exact Inv.right ⟨trivial, fun _ _ => trivial, h.snapshot⟩ hnone

theorem right_refresh (hcall : s.call = .idle) : Right Q s.refresh := by
  have hknows := h.view
  rw [hcall] at hknows
  obtain ⟨htrails, hcurrent⟩ := hknows
  unfold Sys.refresh
  split
  · exact right_failed h hnone (by rw [hcall]; decide)
  rename_i now hnow
  have hsv := counters_schemaVersion hnow
  split_ifs with hsame hschema
  · -- the counters have not moved
    have hpin := (right_pin h hnone).inv
    refine ⟨⟨hpin.view, hpin.base, hpin.snapshot⟩, fun _ _ => ?_⟩
    have hfresh := hcurrent (hsame ▸ hnow)
    obtain ⟨_, _, txn⟩ := s
    cases txn <;> exact hfresh
  · refine right_touching h hnone ?_
    rw [live_touch]
    rcases htrails with hlt | ⟨heq, -⟩
    · exact hlt
    · exact absurd (hsv.trans heq.symm) hschema
  · refine right_touching h hnone (trails_of_counters hnow fun names hw => ?_)
    rcases htrails with hlt | ⟨-, hm⟩
    · omega
    rw [hw] at hm
    cases hch : s.live.seen.changes with
    | file _ _ => rw [hch] at hm; exact hm.elim
    | tables sum count => rw [hch] at hm; exact hm.1

theorem right_resolve (hcall : s.call ≠ .running false)
    (hlt : new = false → s.live.seen.schemaVersion < s.view.db.schemaVersion) :
    Right Q (s.resolve Q new) := by
  unfold Sys.resolve
  split
  · exact right_failed h hnone hcall
  refine right_touching h hnone ?_
  cases new with
  | true => trivial
  | false => exact hlt rfl

theorem right_reread (hcall : s.call ≠ .running false)
    (hw : ∀ names, s.live.watch = .tables names → Watched Q s.view.db names) :
    Right Q (s.rereadCounters new) := by
  unfold Sys.rereadCounters
  split
  · exact right_failed h hnone hcall
  · rename_i seen hseen
    exact right_touching h hnone (trails_of_counters hseen hw)

omit h hnone in
theorem diff_ok
    (h : ∀ key, live.key = some key → ∀ row ∈ live.rows ++ rows, ∀ i ∈ key, i < row.length) :
    ∃ d, live.diff rows = .ok d := by
  unfold LiveQuery.diff
  cases hkey : live.key with
  | none => exact ⟨_, rfl⟩
  | some key => exact keyedDiff_ok_iff.2 (h key hkey)

theorem right_run (hcall : s.call = .running new) (hs : new = false →
      ∃ columns rows, Q.result s.view.db = .ok (columns, rows) ∧
        ∀ key, s.live.key = some key → ∀ row ∈ s.live.rows ++ rows, ∀ i ∈ key, i < row.length) :
    Right Q (s.run Q new) := by
  have hknows := h.view
  rw [hcall] at hknows
  cases new with
  | true =>
    unfold Sys.run
    split
    · exact right_failed h hnone (by rw [hcall]; decide)
    · rename_i columns rows hresult
      exact right_touching h hnone ⟨hknows, fun _ => hresult⟩
  | false =>
    obtain ⟨columns, rows, hresult, hkey⟩ := hs rfl
    obtain ⟨d, hdiff⟩ := diff_ok hkey
    simp only [Sys.run, hresult, hdiff]
    exact right_touch h ⟨hknows, fun _ => hresult⟩ fun _ _ => hresult

theorem right_next (hs : Sound Q s .next) (hstep : s.next Q = some s') : Right Q s' := by
  have hknows := h.view
  simp only [Sound] at hs
  unfold Sys.next at hstep
  split at hstep
  · cases hstep
  · cases hstep
  · rename_i hcall
    cases hstep
    rw [hcall] at hknows
    exact right_resolve h hnone (by rw [hcall]; decide) fun _ => hknows
  · rename_i new hcall
    cases hstep
    simp only [hcall] at hs
    exact right_reread h hnone (by rw [hcall]; exact fun h => by cases h) hs
  · rename_i new hcall
    cases hstep
    refine right_run h hnone hcall ?_
    rintro rfl
    simpa only [hcall] using hs

/-- **One step keeps the invariant**, and a refresh that returns leaves the query's result. -/
theorem step_right {a : Action} (hs : Sound Q s a) (hstep : s.act Q a = some s') : Right Q s' := by
  cases a <;> simp only [Sys.act] at hstep
  case stmt st => exact right_own hs h hnone hstep
  case read =>
    cases hstep
    exact right_pin h hnone
  case begin =>
    split at hstep
    · rename_i htxn
      cases hstep
      refine Inv.right ⟨?_, (by rintro _ ⟨⟩), (by rintro _ _ ⟨⟩)⟩ hnone
      have hknows := h.view
      rw [Sys.view, htxn] at hknows
      exact hknows
    · cases hstep
  case commit => exact right_commit h hnone hstep
  case rollback => exact right_rollback hs h hnone hstep
  case foreign sts => exact right_foreign hs h hnone hstep
  case new =>
    split_ifs at hstep with hcall
    cases hstep
    refine right_resolve ⟨?_, fun db hdb => ?_, h.snapshot⟩ hnone (by simp [hcall]) (by simp)
    all_goals simp [hcall, KnowsAt]
  case keyedBy columns =>
    split_ifs at hstep with hcall
    cases hstep
    have hkeep : ∀ v, KnowsAt Q s.live s.call v s.totalChanges →
        KnowsAt Q { s.live with key := some columns } s.call v s.totalChanges := by
      intro v hv
      exact hv
    exact Inv.right ⟨hkeep _ h.view, fun db hdb => hkeep _ (h.base db hdb), h.snapshot⟩ hnone
  case refresh =>
    split_ifs at hstep with hcall
    cases hstep
    exact right_refresh h hnone hcall
  case next => exact right_next h hnone hs hstep
  case fail e =>
    split_ifs at hstep
    cases hstep
    exact right_failed h hnone hs

omit h hnone

/-- **Whenever a refresh returns, the rows are the query's result**, in every run whose steps are
sound. -/
theorem refresh_fresh {file : Db} {commits totalChanges : ℕ} {as : List Action} {d : Option Diff}
    (hs : Run.Along (Sys.step Q) (Sound Q) (Sys.init file commits totalChanges) as)
    (hrun : Run.exec (Sys.step Q) (Sys.init file commits totalChanges) as = some s)
    (hd : s.returned = some (.ok d)) :
    Q.result s.view.db = .ok (s.live.columns, s.live.rows) := by
  have hinit : Right Q (Sys.init file commits totalChanges) := right_of_none rfl rfl trivial
  have hright : Right Q s := Run.exec_invariant
    (fun s a s' hI hok hstep => step_right (inv_forget hI.inv) rfl hok hstep) hinit hs hrun
  exact hright.fresh d hd

end Steps

/-! ### A query over one table -/

/-- `SELECT * FROM t`, with `t` at root page 2. -/
def selectAll : Query where
  explain _ := .ok [⟨"OpenRead", 2, 0, 0⟩]
  result db :=
    match db.schema.tableAt 2 with
    | none => .error .sql
    | some t =>
        if nocase t = nocase trackedTable then
          .ok (["tbl"], (db.tracked.getD []).map (fun r => [.text r.1]))
        else .ok (["x"], db.rows (nocase t))
  reads db db' ops hs hops _ hopens := by
    cases hops
    obtain ⟨-, t, ht, hc⟩ := hopens _ (List.mem_singleton.2 rfl) rfl
    have ht' : db'.schema.tableAt 2 = some t := hs ▸ ht
    unfold SameContents at hc
    simp only [ht, ht']
    split_ifs at hc ⊢ <;> rw [hc]

/-- A file with the table `t`, which has one row. -/
def oneRow : Db where
  schemaVersion := 1
  schema := ⟨[(2, "t")], ["t"], [], [], List.nodup_nil⟩
  rows n := if n = nocase "t" then [[.integer 1]] else []
  tracked := none

/-- A refresh reads a row that a transaction wrote, and then `last` ends the transaction. -/
def readInside (last : Action) : List Action :=
  [.new, .next, .next, .begin, .stmt (.write "t" .insert [[.integer 1], [.integer 2]]),
    .refresh, .next, last, .refresh]

/-- Neither counter moves with a rollback: the next refresh answers that nothing changed, and keeps
the row that was rolled back. -/
theorem rolled_back_row_stays :
    ∃ s, Run.exec (Sys.step selectAll) (Sys.init oneRow 0 0) (readInside .rollback) = some s ∧
      s.returned = some (.ok none) ∧
      selectAll.result s.view.db ≠ .ok (s.live.columns, s.live.rows) := by
  refine ⟨_, rfl, rfl, fun h => ?_⟩
  exact absurd (Except.ok.inj h) (by decide)

/-- After a commit the next refresh finds nothing new either, rightly. -/
theorem committed_row_stays :
    ∃ s, Run.exec (Sys.step selectAll) (Sys.init oneRow 0 0) (readInside .commit) = some s ∧
      selectAll.result s.view.db = .ok (s.live.columns, s.live.rows) := by
  -- a live query without a key that watches the file runs into none of the conditions
  have hs : Run.Along (Sys.step selectAll) (Sound selectAll) (Sys.init oneRow 0 0)
      (readInside .commit) := by
    refine ⟨trivial, ?_⟩
    rintro _ ⟨⟩
    refine ⟨?_, ?_⟩
    · rintro _ ⟨⟩
    rintro _ ⟨⟩
    iterate 4
      refine ⟨trivial, ?_⟩
      rintro _ ⟨⟩
    -- the query is run inside the transaction
    refine ⟨⟨_, _, rfl, nofun⟩, ?_⟩
    rintro _ ⟨⟩
    refine ⟨trivial, ?_⟩
    rintro _ ⟨⟩
    exact ⟨trivial, fun _ _ => trivial⟩
  exact ⟨_, rfl, refresh_fresh hs rfl rfl⟩

end SqlAnywhere.Live
