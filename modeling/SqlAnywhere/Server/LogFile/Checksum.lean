import SqlAnywhere.Server.LogFile

/-!
# The checksums of a log

Each frame has the checksum of its page and of the pages before it, from the one in the header of the
log on.  A compaction puts the last checksum into the header of the new log, but leaves the ones in
memory at `0`, from which the first frame of the new log then goes on.

* `Chained` — the checksums in the file follow from the one in the header
* `Careful` — a page is not pushed to a log that a compaction has just made
* `checksums_of_careful` — then the checksums are right
* `checksum_restarts` — a log that does not pass its own verification
-/

namespace SqlAnywhere.Server.DiskLog

open List
open ReplicationLog (Frame)
open ForkLog (Source)

variable {α : Type*} {codec : Codec α} {log : LogFile α} {abs : ReplicationLog.LogFile α}
  {log' : LogFile α}

/-- The checksum after frames, from the one before them on. -/
def Codec.sum (codec : Codec α) (start : ℕ) (frames : List (Frame α)) : ℕ :=
  frames.foldl (fun sum frame => codec.crc sum frame.page) start

theorem Codec.sum_concat (start : ℕ) (frames : List (Frame α)) (frame : Frame α) :
    codec.sum start (frames ++ [frame]) = codec.crc (codec.sum start frames) frame.page := by
  rw [sum, foldl_append]
  rfl

/-- The checksums in the file, and those in memory unless the log was just made by a compaction. -/
structure Chained (codec : Codec α) (log : LogFile α) (abs : ReplicationLog.LogFile α) : Prop where
  stored : ∀ i stored, i < (abs.frames ++ abs.uncommitted).length →
    LogFile.readFrame codec log.file (LogFile.absoluteByteOffset i) = some stored →
      stored.checksum =
        codec.sum log.header.startChecksum ((abs.frames ++ abs.uncommitted).take (i + 1))
  memory : log.committedChecksum = codec.sum log.header.startChecksum abs.frames ∧
      log.uncommittedChecksum =
        codec.sum log.header.startChecksum (abs.frames ++ abs.uncommitted) ∨
    abs.frames = [] ∧ abs.uncommitted = [] ∧ log.uncommittedChecksum = log.committedChecksum

/-- A page goes on from the checksum of the header when there is no frame before it. -/
def Careful (log : LogFile α) : Action α → Prop
  | .push _ _ _ => log.header.frameCount = 0 → log.committedChecksum = log.header.startChecksum
  | _ => True

namespace Chained

theorem fresh (codec : Codec α) : Chained codec (DiskLog.fresh : LogFile α) (.new 0) :=
  ⟨fun i _ hi => absurd hi (Nat.not_lt_zero i), .inl ⟨rfl, rfl⟩⟩

variable (h : Chained codec log abs) (href : Refines codec log abs)
include h href

theorem pushFailed
    (torn : Option (Stored α)) : Chained codec (log.setFrame log.nextByteOffset torn) abs where
  stored i stored hi hread := by
    rw [LogFile.readFrame_setFrame_of_ne (href.offset_ne (getElem?_eq_getElem hi))] at hread
    exact h.stored i stored hi hread
  memory := h.memory

theorem uncommitted_eq
    (hcareful : log.header.frameCount = 0 → log.committedChecksum = log.header.startChecksum) :
    log.committedChecksum = codec.sum log.header.startChecksum abs.frames ∧
      log.uncommittedChecksum =
        codec.sum log.header.startChecksum (abs.frames ++ abs.uncommitted) := by
  rcases h.memory with hmemory | ⟨hframes, huncommitted, hsame⟩
  · exact hmemory
  · have hzero : log.header.frameCount = 0 := by rw [href.count, hframes, length_nil]
    rw [hsame, hcareful hzero, hframes, huncommitted]
    exact ⟨rfl, rfl⟩

theorem push {pageNo sizeAfter : ℕ}
    {page : α} (hcareful : Careful log (.push pageNo sizeAfter page)) :
    Chained codec (log.pushPage codec pageNo sizeAfter page)
      (abs.pushPage pageNo sizeAfter page) := by
  obtain ⟨hcommitted, huncommitted⟩ := h.uncommitted_eq href hcareful
  have happend : abs.frames ++ (abs.pushPage pageNo sizeAfter page).uncommitted =
      (abs.frames ++ abs.uncommitted) ++ [⟨abs.nextFrameNo, pageNo, sizeAfter, page⟩] :=
    (append_assoc ..).symm
  have hsum : codec.crc log.uncommittedChecksum page = codec.sum log.header.startChecksum
      ((abs.frames ++ abs.uncommitted) ++ [⟨abs.nextFrameNo, pageNo, sizeAfter, page⟩]) := by
    rw [Codec.sum_concat, huncommitted]
  refine ⟨fun i stored hi hread => ?_, .inl ⟨hcommitted, ?_⟩⟩
  · show stored.checksum = codec.sum log.header.startChecksum
      ((abs.frames ++ (abs.pushPage pageNo sizeAfter page).uncommitted).take (i + 1))
    have hi : i < (abs.frames ++ (abs.pushPage pageNo sizeAfter page).uncommitted).length := hi
    rw [happend] at hi ⊢
    rw [length_append, length_singleton] at hi
    by_cases hlt : i < (abs.frames ++ abs.uncommitted).length
    · rw [LogFile.readFrame_pushPage_of_ne
        (href.offset_ne (getElem?_eq_getElem hlt))] at hread
      rw [take_append_of_le_length hlt]
      exact h.stored i stored hlt hread
    · have hnext : LogFile.absoluteByteOffset i = log.nextByteOffset := by
        rw [LogFile.nextByteOffset, href.count, href.uncommitted, ← length_append]
        congr 1
        omega
      rw [hnext, LogFile.readFrame_pushPage] at hread
      cases hread
      rw [take_of_length_le (by rw [length_append, length_singleton]; omega)]
      exact hsum
  · show codec.crc log.uncommittedChecksum page = codec.sum log.header.startChecksum
      (abs.frames ++ (abs.pushPage pageNo sizeAfter page).uncommitted)
    rw [happend]
    exact hsum

omit href

theorem stored_of_lt {i : ℕ} {stored : Stored α} (hi : i < abs.frames.length)
    (hread : LogFile.readFrame codec log.file (LogFile.absoluteByteOffset i) = some stored) :
    stored.checksum = codec.sum log.header.startChecksum (abs.frames.take (i + 1)) := by
  have hlen : i < (abs.frames ++ abs.uncommitted).length := by
    rw [length_append]
    omega
  rw [h.stored i stored hlen hread, take_append_of_le_length hi]

theorem commit : Chained codec log.commit abs.commit := by
  have happend : abs.commit.frames ++ abs.commit.uncommitted = abs.frames ++ abs.uncommitted :=
    append_nil _
  refine ⟨fun i stored hi hread => ?_, ?_⟩
  · rw [happend] at hi ⊢
    exact h.stored i stored hi hread
  · rw [happend]
    rcases h.memory with ⟨-, huncommitted⟩ | ⟨hframes, huncommitted, -⟩
    · exact .inl ⟨huncommitted, huncommitted⟩
    refine .inr ⟨?_, rfl, rfl⟩
    show abs.frames ++ abs.uncommitted = []
    rw [hframes, huncommitted]
    rfl

/-- Dropping the pages that are not committed, with the checksum of the last frame in memory. -/
theorem drop (hfile : log'.file = log.file)
    (hstart : log'.header.startChecksum = log.header.startChecksum)
    (hmemory : log'.committedChecksum = codec.sum log.header.startChecksum abs.frames ∧
        log'.uncommittedChecksum = codec.sum log.header.startChecksum abs.frames ∨
      abs.frames = [] ∧ log'.uncommittedChecksum = log'.committedChecksum) :
    Chained codec log' abs.rollback := by
  have happend : abs.rollback.frames ++ abs.rollback.uncommitted = abs.frames := append_nil _
  refine ⟨fun i stored hi hread => ?_, ?_⟩
  · rw [happend] at hi ⊢
    rw [hfile] at hread
    rw [h.stored_of_lt hi hread, hstart]
  · rw [happend, hstart]
    rcases hmemory with hmemory | ⟨hframes, hsame⟩
    · exact .inl hmemory
    · exact .inr ⟨hframes, rfl, hsame⟩

theorem rollback : Chained codec log.rollback abs.rollback := by
  refine h.drop rfl rfl ?_
  rcases h.memory with ⟨hcommitted, -⟩ | ⟨hframes, -, -⟩
  · exact .inl ⟨hcommitted, hcommitted⟩
  · exact .inr ⟨hframes, rfl⟩

end Chained

/-! ### Restarts and compactions -/

theorem new_spec (hdisk : log.file.header = some log.header)
    (h : LogFile.new codec log.file = some log') :
    log'.file = log.file ∧ log'.header = log.header ∧
      log'.uncommittedChecksum = log'.committedChecksum ∧
      (log.header.frameCount = 0 ∧ log'.committedChecksum = log.header.startChecksum ∨
        log.header.frameCount ≠ 0 ∧
          ∃ stored, log.frame codec (log.header.startFrameNo + log.header.frameCount - 1) =
            .ok stored ∧ log'.committedChecksum = stored.checksum) := by
  rw [LogFile.new, hdisk] at h
  dsimp only at h
  by_cases hzero : log.header.frameCount = 0
  · rw [if_pos hzero] at h
    cases h
    exact ⟨rfl, rfl, rfl, .inl ⟨hzero, rfl⟩⟩
  · rw [if_neg hzero] at h
    cases hread : LogFile.readAt codec log.file log.header
        (log.header.startFrameNo + log.header.frameCount - 1) with
    | error e =>
      simp [hread] at h
    | ok last =>
      rw [hread] at h
      cases h
      exact ⟨rfl, rfl, rfl, .inr ⟨hzero, last, hread, rfl⟩⟩

namespace Chained

variable (h : Chained codec log abs) (href : Refines codec log abs)
include h href

theorem of_frame_ok {n : ℕ}
    {stored : Stored α} (hok : log.frame codec n = .ok stored) :
    stored.checksum = codec.sum log.header.startChecksum
      (abs.frames.take (n - log.header.startFrameNo + 1)) := by
  obtain ⟨hstart, hend, hread⟩ := LogFile.frame_ok_iff.1 hok
  rw [href.count] at hend
  exact h.stored_of_lt (by omega) hread

theorem reopen
    (hnew : LogFile.new codec log.file = some log') : Chained codec log' abs.rollback := by
  obtain ⟨hfile, hheader, hsame, hlast⟩ := new_spec href.disk hnew
  refine h.drop hfile (by rw [hheader]) (.inl ?_)
  rw [hsame, and_self_iff]
  rcases hlast with ⟨hzero, hstart⟩ | ⟨hne, stored, hok, hchecksum⟩
  · rw [href.count] at hzero
    rw [hstart, length_eq_zero_iff.1 hzero]
    rfl
  · rw [hchecksum, h.of_frame_ok href hok, take_of_length_le]
    rw [← href.count]
    omega

theorem compact :
    Chained codec log.doCompaction
      (if abs.uncommitted.isEmpty && !abs.frames.isEmpty then
        .new (abs.startFrameNo + abs.frames.length) else abs) := by
  rw [LogFile.doCompaction]
  by_cases hcan : log.uncommittedFrameCount = 0 ∧ log.header.frameCount ≠ 0
  · rw [if_pos hcan, if_pos (href.canCompact_iff.2 hcan)]
    exact ⟨fun i _ hi => absurd hi (Nat.not_lt_zero i), .inr ⟨rfl, rfl, rfl⟩⟩
  · rw [if_neg hcan, if_neg (mt href.canCompact_iff.1 hcan)]
    exact h

omit href h

theorem step {s : Source α} (h : Chained codec log s.log) (href : Refines codec log s.log)
    {a : Action α} (hcareful : Careful log a)
    (hstep : DiskLog.step codec log a = some log') : Chained codec log' (specStep s a).log := by
  cases a with
  | push pageNo sizeAfter page =>
    cases hstep
    exact h.push href hcareful
  | pushFailed torn =>
    cases hstep
    exact h.pushFailed href torn
  | commit =>
    cases hstep
    exact h.commit
  | rollback =>
    cases hstep
    exact h.rollback
  | compact =>
    cases hstep
    have hcompact := h.compact href
    show Chained codec log.doCompaction s.compact.log
    rw [Source.compact]
    split_ifs at hcompact ⊢ <;> exact hcompact
  | reopen => exact h.reopen href hstep

end Chained

theorem run_chained {s : Source α} (h : Chained codec log s.log) (href : Refines codec log s.log)
    {actions : List (Action α)} (hcareful : Run.Along (step codec) Careful log actions)
    (hrun : Run.exec (step codec) log actions = some log') :
    Chained codec log' (actions.foldl specStep s).log ∧
      Refines codec log' (actions.foldl specStep s).log := by
  induction actions generalizing log s with
  | nil =>
    cases hrun
    exact ⟨h, href⟩
  | cons a actions ih =>
    obtain ⟨log₁, hstep, hrest⟩ := Run.exec_cons_iff.1 hrun
    obtain ⟨log₂, hstep', href₁⟩ := step_refines href a
    obtain rfl := Option.some.inj (hstep.symm.trans hstep')
    exact ih (h.step href hcareful.1 hstep) href₁ (hcareful.2 log₁ hstep) hrest

/-! ### Verification -/

theorem framesIter_eq (href : Refines codec log abs) :
    ∃ stored : List (Stored α), log.framesIter codec = stored.map some ∧
      stored.map Stored.frame = abs.frames := by
  have h : ∀ k ≤ abs.frames.length, ∃ stored : List (Stored α),
      (range k).map (fun nth =>
        LogFile.readFrame codec log.file (LogFile.absoluteByteOffset nth)) = stored.map some ∧
      stored.map Stored.frame = abs.frames.take k := by
    intro k
    induction k with
    | zero => exact fun _ => ⟨[], rfl, rfl⟩
    | succ k ih =>
      intro hk
      obtain ⟨stored, hread, hframes⟩ := ih (by omega)
      obtain ⟨last, hlast, hframe⟩ := href.frames k abs.frames[k]
        (by rw [getElem?_append_left hk, getElem?_eq_getElem hk])
      refine ⟨stored ++ [last], ?_, ?_⟩
      · rw [range_succ, map_append, hread, map_append, map_singleton, hlast]
        rfl
      · rw [map_append, hframes, map_singleton, hframe, take_add_one, getElem?_eq_getElem hk]
        rfl
  obtain ⟨stored, hread, hframes⟩ := h abs.frames.length (Nat.le_refl _)
  refine ⟨stored, ?_, by rw [hframes, take_length]⟩
  rw [LogFile.framesIter, href.count]
  exact hread

theorem foldlM_checksum (stored : List (Stored α)) (start : ℕ)
    (h : ∀ i s, stored[i]? = some s →
      s.checksum = codec.sum start ((stored.map Stored.frame).take (i + 1))) :
    (stored.map some).foldlM
        (fun sum s => s.bind fun s =>
          if codec.crc sum s.frame.page = s.checksum then some s.checksum else none) start =
      some (codec.sum start (stored.map Stored.frame)) := by
  induction stored generalizing start with
  | nil => rfl
  | cons s stored ih =>
    have hs : s.checksum = codec.crc start s.frame.page := h 0 s rfl
    rw [map_cons, foldlM_cons, Option.bind_some, if_pos hs.symm]
    refine (ih s.checksum fun i s' hi => ?_).trans ?_
    · rw [h (i + 1) s' hi, hs]
      rfl
    · rw [hs]
      rfl

theorem computeChecksum_eq (h : Chained codec log abs) (href : Refines codec log abs) :
    log.computeChecksum codec = some (codec.sum log.header.startChecksum abs.frames) := by
  obtain ⟨stored, hiter, hframes⟩ := framesIter_eq href
  rw [LogFile.computeChecksum, hiter, ← hframes]
  refine foldlM_checksum stored _ fun i s hi => ?_
  have hlt : i < abs.frames.length := by
    rw [← hframes, length_map]
    exact (List.getElem?_eq_some_iff.1 hi).1
  have hread : LogFile.readFrame codec log.file (LogFile.absoluteByteOffset i) = some s := by
    have hget : (log.framesIter codec)[i]? = some (some s) := by
      rw [hiter, getElem?_map, hi]
      rfl
    rw [LogFile.framesIter, href.count, getElem?_map, getElem?_range hlt] at hget
    exact Option.some.inj hget
  rw [h.stored_of_lt hlt hread, hframes]

/-- **The checksums of a log** follow from the one in its header, so that the log passes its
verification, and a log goes on from the checksum of its last frame when it is opened again. -/
theorem checksums_of_careful {actions : List (Action α)}
    (hcareful : Run.Along (step codec) Careful fresh actions)
    (hrun : Run.exec (step codec) fresh actions = some log) :
    (∀ n stored, log.frame codec n = .ok stored →
      stored.checksum = codec.sum log.header.startChecksum
        ((spec actions).log.frames.take (n - log.header.startFrameNo + 1))) ∧
      log.computeChecksum codec =
        some (codec.sum log.header.startChecksum (spec actions).log.frames) ∧
      ∀ log', LogFile.new codec log.file = some log' →
        log'.uncommittedChecksum = log'.committedChecksum ∧
          ∀ stored, log.frame codec (log.header.startFrameNo + log.header.frameCount - 1) =
            .ok stored → log'.committedChecksum = stored.checksum := by
  have hfresh : Refines codec fresh (Source.new : Source α).log := Refines.fresh codec
  have hchained : Chained codec fresh (Source.new : Source α).log := Chained.fresh codec
  obtain ⟨h, href⟩ := run_chained hchained hfresh hcareful hrun
  refine ⟨fun n stored hok => h.of_frame_ok href hok, computeChecksum_eq h href,
    fun log' hnew => ?_⟩
  obtain ⟨-, -, hsame, hlast⟩ := new_spec href.disk hnew
  refine ⟨hsame, fun stored hok => ?_⟩
  rcases hlast with ⟨hzero, -⟩ | ⟨-, last, hlast, hchecksum⟩
  · obtain ⟨hle, hlt⟩ := (href.exists_frame_iff _).1 ⟨stored, hok⟩
    omega
  · rw [hok] at hlast
    cases hlast
    exact hchecksum

/-- Pages that are numbers, without encryption. -/
def numbers : Codec ℕ where
  crc sum page := sum + page + 1
  encrypt page := page
  decrypt page := page
  decrypt_encrypt _ := rfl

instance (log : LogFile α) : (a : Action α) → Decidable (Careful log a)
  | .push _ _ _ => by unfold Careful; infer_instance
  | .pushFailed _ => isTrue trivial
  | .commit => isTrue trivial
  | .rollback => isTrue trivial
  | .compact => isTrue trivial
  | .reopen => isTrue trivial

/-- The log is opened again between the compaction and the next page. -/
theorem checksums_of_careful_reopened :
    ∃ log, Run.exec (step numbers) fresh
        [.push 1 1 5, .commit, .compact, .reopen, .push 1 1 7, .push 2 2 9, .rollback, .push 1 1 8,
          .commit] = some log ∧
      log.computeChecksum numbers = some 15 := by
  have hrun : (Run.exec (step numbers) fresh
      [.push 1 1 5, .commit, .compact, .reopen, .push 1 1 7, .push 2 2 9, .rollback, .push 1 1 8,
        .commit]).map (fun log => log.header.startChecksum) = some 6 := by decide +kernel
  obtain ⟨log, hlog, hstart⟩ := Option.map_eq_some_iff.1 hrun
  refine ⟨log, hlog, (checksums_of_careful (by decide +kernel) hlog).2.1.trans ?_⟩
  rw [hstart]
  decide +kernel

/-- The first page after a compaction goes on from `0`: the log does not pass its verification. -/
theorem checksum_restarts :
    (Run.exec (step numbers) fresh [.push 1 1 5, .commit, .compact, .push 1 1 7, .commit]).map
        (fun log => (log.header.startChecksum, (log.frame numbers 1).toOption.map Stored.checksum,
          log.computeChecksum numbers)) =
      some (6, some 8, none) := by
  decide +kernel

end SqlAnywhere.Server.DiskLog
