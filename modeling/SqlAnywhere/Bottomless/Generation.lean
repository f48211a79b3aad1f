import Mathlib.Data.List.Lex
import Mathlib.Tactic.Ring

/-!
# The generations of a bottomless replicator

A generation is a UUID of version 7, made from a time that runs backwards: the listing of a bucket,
in the order of names, begins with the newest generation.

* `generationFromTimestamp`, `generationToTimestamp` — a generation and its time
* `generation_order` — the order of generations, and what is left of the time
-/

namespace SqlAnywhere.Bottomless

structure Timestamp where
  seconds : ℕ
  nanos : ℕ
  nanos_lt : nanos < 1000000000

/-- The milliseconds since the epoch. -/
def Timestamp.millis (ts : Timestamp) : ℕ := ts.seconds * 1000 + ts.nanos / 1000000

/-- The last second that has a generation. -/
def lastSecond : ℕ := 253370761200

/-- The lower `width` bytes of a number, the highest first. -/
def beBytes : ℕ → ℕ → List UInt8
  | 0, _ => []
  | width + 1, n => UInt8.ofNat (n / 256 ^ width) :: beBytes width n

section

/-! `fromFields` is `Uuid::from_fields`: of the bytes it returns only that the first two fields come
first, big-endian, is used. -/

variable (fromFields : ℕ → ℕ → ℕ → List UInt8 → List UInt8)

def encodeUnixTimestampMillis (millis : ℕ) (randomBytes : ℕ → UInt8) : List UInt8 :=
  let millisHigh := millis / 65536 % 4294967296
  let millisLow := millis % 65536
  let randomAndVersion :=
    (randomBytes 1).toNat + (randomBytes 0).toNat * 256 % 4096 + 7 * 4096
  let d4 := (randomBytes 2 &&& 0x3f ||| 0x80) :: (List.range 7).map fun i => randomBytes (i + 3)
  fromFields millisHigh millisLow randomAndVersion d4

def newV7 (ts : Timestamp) (bytes : ℕ → UInt8) : List UInt8 :=
  encodeUnixTimestampMillis fromFields ts.millis bytes

def decodeUnixTimestamp (uuid : List UInt8) : Timestamp :=
  let millis := (uuid.take 6).foldl (fun n b => n * 256 + b.toNat) 0
  ⟨millis / 1000, millis % 1000 * 1000000, by omega⟩

/-- The time that is as far from the last second as `ts` is from the first. -/
def Timestamp.mirror (ts : Timestamp) : Timestamp :=
  ⟨lastSecond - ts.seconds, 999999999 - ts.nanos, by omega⟩

def generationFromTimestamp (ts : Timestamp) (bytes : ℕ → UInt8) : List UInt8 :=
  newV7 fromFields ts.mirror bytes

end

def generationToTimestamp (generation : List UInt8) : Timestamp :=
  (decodeUnixTimestamp generation).mirror

variable {width m n : ℕ} {ts ts' : Timestamp} {fromFields : ℕ → ℕ → ℕ → List UInt8 → List UInt8}

theorem mod_succ (n width : ℕ) :
    n % 256 ^ (width + 1) = n / 256 ^ width % 256 * 256 ^ width + n % 256 ^ width := by
  rw [Nat.pow_succ, Nat.mod_mul, Nat.add_comm, Nat.mul_comm]

theorem foldl_beBytes (acc : ℕ) :
    (beBytes width n).foldl (fun n b => n * 256 + b.toNat) acc =
      acc * 256 ^ width + n % 256 ^ width := by
  induction width generalizing acc with
  | zero => simp [beBytes, Nat.mod_one]
  | succ width ih =>
    rw [beBytes, List.foldl_cons, ih, mod_succ, UInt8.toNat_ofNat']
    ring

theorem beBytes_lt {x y : List UInt8} (h : m % 256 ^ width < n % 256 ^ width) :
    beBytes width m ++ x < beBytes width n ++ y := by
  induction width with
  | zero => simp [Nat.mod_one] at h
  | succ width ih =>
    rw [mod_succ, mod_succ] at h
    simp only [beBytes, List.cons_append, List.cons_lt_cons_iff, UInt8.lt_iff_toNat_lt,
      ← UInt8.toNat_inj, UInt8.toNat_ofNat']
    rcases Nat.lt_trichotomy (m / 256 ^ width % 256) (n / 256 ^ width % 256) with hlt | heq | hgt
    · exact Or.inl hlt
    · rw [heq] at h
      exact Or.inr ⟨heq, ih (Nat.lt_of_add_lt_add_left h)⟩
    · have hn := Nat.mod_lt n (Nat.pow_pos (n := width) (show 0 < 256 by decide))
      have hgt' := Nat.mul_le_mul_right (256 ^ width) hgt
      rw [Nat.succ_mul] at hgt'
      omega

/-- A UUID begins with the lower six bytes of its milliseconds. -/
theorem newV7_eq
    (hfields : ∀ d1 d2 d3 d4, ∃ rest, fromFields d1 d2 d3 d4 = beBytes 4 d1 ++ beBytes 2 d2 ++ rest)
    (ts : Timestamp) (bytes : ℕ → UInt8) :
    ∃ rest, newV7 fromFields ts bytes = beBytes 6 ts.millis ++ rest := by
  generalize hn : ts.millis = n
  have hsix : beBytes 4 (n / 65536 % 4294967296) ++ beBytes 2 (n % 65536) = beBytes 6 n := by
    simp only [beBytes, List.cons_append, List.nil_append, List.cons.injEq, ← UInt8.toNat_inj,
      UInt8.toNat_ofNat', and_true]
    refine ⟨?_, ?_, ?_, ?_, ?_, ?_⟩ <;> omega
  rw [newV7, encodeUnixTimestampMillis, hn, ← hsix]
  exact hfields _ _ _ _

theorem decodeUnixTimestamp_append {rest : List UInt8} (h : n < 256 ^ 6) :
    decodeUnixTimestamp (beBytes 6 n ++ rest) =
      ⟨n / 1000, n % 1000 * 1000000, by omega⟩ := by
  have htake : (beBytes 6 n ++ rest).take 6 = beBytes 6 n := rfl
  simp only [decodeUnixTimestamp, htake, foldl_beBytes, Nat.mod_eq_of_lt h, Nat.zero_mul,
    Nat.zero_add]

theorem mirror_millis (h : ts.seconds ≤ lastSecond) :
    ts.mirror.millis + ts.millis = lastSecond * 1000 + 999 := by
  have := ts.nanos_lt
  simp only [Timestamp.millis, Timestamp.mirror]
  omega

theorem mirror_millis_lt (ts : Timestamp) : ts.mirror.millis < 256 ^ 6 := by
  simp only [Timestamp.millis, Timestamp.mirror, lastSecond]
  omega

/-- **The later of two times has the smaller generation**, in the order of bytes, and a generation
tells the second and the millisecond it was made at. -/
theorem generation_order
    (hfields : ∀ d1 d2 d3 d4, ∃ rest, fromFields d1 d2 d3 d4 = beBytes 4 d1 ++ beBytes 2 d2 ++ rest)
    (h : ts.seconds ≤ lastSecond) (h' : ts'.seconds ≤ lastSecond) (bytes bytes' : ℕ → UInt8) :
    (ts.millis < ts'.millis →
        generationFromTimestamp fromFields ts' bytes' <
          generationFromTimestamp fromFields ts bytes) ∧
      (generationToTimestamp (generationFromTimestamp fromFields ts bytes)).seconds = ts.seconds ∧
      (generationToTimestamp (generationFromTimestamp fromFields ts bytes)).nanos / 1000000 =
        ts.nanos / 1000000 := by
  obtain ⟨rest, hrest⟩ := newV7_eq hfields ts.mirror bytes
  obtain ⟨rest', hrest'⟩ := newV7_eq hfields ts'.mirror bytes'
  have hsum := mirror_millis h
  have hsum' := mirror_millis h'
  have hlt := mirror_millis_lt ts
  have hlt' := mirror_millis_lt ts'
  have hmillis : ts.millis = ts.seconds * 1000 + ts.nanos / 1000000 := rfl
  have hnanos := ts.nanos_lt
  rw [generationToTimestamp, generationFromTimestamp, generationFromTimestamp, hrest, hrest',
    decodeUnixTimestamp_append hlt]
  refine ⟨fun hearlier => beBytes_lt ?_, ?_, ?_⟩
  · rw [Nat.mod_eq_of_lt hlt, Nat.mod_eq_of_lt hlt']
    omega
  · change lastSecond - ts.mirror.millis / 1000 = ts.seconds
    omega
  · change (999999999 - ts.mirror.millis % 1000 * 1000000) / 1000000 = ts.nanos / 1000000
    have hmod : lastSecond * 1000 % 1000 = 0 := by decide
    omega

/-- The fields of a UUID one after the other, each big-endian. -/
def concatFields (d1 d2 d3 : ℕ) (d4 : List UInt8) : List UInt8 :=
  beBytes 4 d1 ++ beBytes 2 d2 ++ (beBytes 2 d3 ++ d4)

theorem generation_order_epoch :
    generationFromTimestamp concatFields ⟨1, 0, by decide⟩ (fun _ => 255) <
      generationFromTimestamp concatFields ⟨0, 999999999, by decide⟩ (fun _ => 0) :=
  (generation_order (fun _ _ _ _ => ⟨_, rfl⟩) (by decide) (by decide) _ _).1 (by decide)

end SqlAnywhere.Bottomless
