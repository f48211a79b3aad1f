import SqlAnywhere.Table

/-!
# How the result of a live query changed

`encode`, `bag_diff` and `keyed_diff` of `live.rs`.

* `keyedDiff_ok_iff` — a comparison by key fails exactly on a row too short for the key
* `encode_inj_iff` — lists of values that have one encoding are equal
-/

namespace SqlAnywhere.Live

/-- What the functions of `live.rs` fail with: an error of a statement, or `Error::Misuse`. -/
inductive Error
  | sql
  | misuse (message : String)
  deriving DecidableEq, Repr

/-- `u64::to_le_bytes`. -/
def leBytes (w : UInt64) : List UInt8 :=
  (List.range 8).map (fun k => (w >>> UInt64.ofNat (8 * k)).toUInt8)

/-- The bytes of one value in an encoding. -/
def encodeValue : Value → List UInt8
  | .null => [0]
  | .integer i => 1 :: leBytes i.toUInt64
  | .real bits => 2 :: leBytes bits
  | .text t => 3 :: (leBytes (UInt64.ofNat t.utf8ByteSize) ++ t.toUTF8.toList)
  | .blob b => 4 :: (leBytes (UInt64.ofNat b.length) ++ b)

def encode (values : List Value) : List UInt8 := values.flatMap encodeValue

/-- How the result changed between two refreshes. -/
structure Diff where
  inserted : List (List Value)
  updated : List (List Value × List Value)
  deleted : List (List Value)
  deriving DecidableEq, Repr

def Diff.isEmpty (d : Diff) : Bool := d.inserted.isEmpty && d.updated.isEmpty && d.deleted.isEmpty

/-- The rows a loop of `bag_diff` takes, with the counts it leaves: those whose count is still on
the side of `sign`, each moving its count one towards zero. -/
def surplus (sign : ℤ) :
    (List UInt8 → ℤ) → List (List Value) → List (List Value) × (List UInt8 → ℤ)
  | count, [] => ([], count)
  | count, row :: rows =>
      if 0 < sign * count (encode row) then
        let rest :=
          surplus sign (Function.update count (encode row) (count (encode row) - sign)) rows
        (row :: rest.1, rest.2)
      else surplus sign count rows

/-- Compare two results as multisets. -/
def bagDiff (old new : List (List Value)) : Diff :=
  let bump := fun (by' : ℤ) (count : List UInt8 → ℤ) (row : List Value) =>
    Function.update count (encode row) (count (encode row) + by')
  let count := new.foldl (bump 1) (old.foldl (bump (-1)) (fun _ => 0))
  let inserted := surplus 1 count new
  let deleted := surplus (-1) inserted.2 old
  ⟨inserted.1, [], deleted.1⟩

/-- `==` on two rows. -/
def rowEq (a b : List Value) : Bool :=
  a.length == b.length && (a.zip b).all (fun p => valueEq p.1 p.2)

/-- The cell of a row at the column `i` of a key. -/
def cell (row : List Value) (i : ℕ) : Except Error Value :=
  match row[i]? with
  | some v => .ok v
  | none =>
      let len := row.length
      .error (.misuse s!"live query key column {i} is out of range for a {len}-column result")

/-- The encoded key of a row. -/
def keyOf (key : List ℕ) (row : List Value) : Except Error (List UInt8) := do
  let cells ← key.mapM (cell row)
  pure (encode cells)

/-- The entry of `keyed_diff`'s maps for a key: the rows that have it, in order. -/
def group (key : List ℕ) (rows : List (List Value)) (k : List UInt8) : List (List Value) :=
  rows.filter (fun row => match keyOf key row with | .ok k' => k' == k | .error _ => false)

/-- What `keyed_diff` adds to the diff for one row of the new result, with encoded key `k`. -/
def newRow (key : List ℕ) (old new : List (List Value)) (diff : Diff) (row : List Value)
    (k : List UInt8) : Diff :=
  let was := group key old k
  let now := group key new k
  match was, now with
  | [], _ => { diff with inserted := diff.inserted ++ [row] }
  | [before], [_] =>
      if rowEq before row then diff else { diff with updated := diff.updated ++ [(before, row)] }
  | _, _ =>
      -- a key shared by several rows: that group is compared as a multiset, at its first row
      if now.head?.any (fun first => rowEq first row) then
        let part := bagDiff was now
        { diff with
          inserted := diff.inserted ++ part.inserted
          deleted := diff.deleted ++ part.deleted }
      else diff

/-- Compare two results by key. -/
def keyedDiff (old new : List (List Value)) (key : List ℕ) : Except Error Diff := do
  let _ ← old.mapM (keyOf key)
  let keys ← new.mapM (keyOf key)
  let diff := (new.zip keys).foldl (fun diff p => newRow key old new diff p.1 p.2) ⟨[], [], []⟩
  let gone := old.filter (fun row =>
    match keyOf key row with | .ok k => (group key new k).isEmpty | .error _ => false)
  pure { diff with deleted := diff.deleted ++ gone }

theorem cell_ok_iff {row : List Value} {i : ℕ} {v : Value} :
    cell row i = .ok v ↔ i < row.length ∧ v = row.getD i .null := by
  unfold cell
  rw [List.getD_eq_getElem?_getD]
  rcases Nat.lt_or_ge i row.length with hi | hi
  · rw [List.getElem?_eq_getElem hi]
    simp [hi, eq_comm]
  · rw [List.getElem?_eq_none hi]
    simp [Nat.not_lt.2 hi]

theorem keyOf_ok_iff {key : List ℕ} {row : List Value} {k : List UInt8} :
    keyOf key row = .ok k ↔
      (∀ i ∈ key, i < row.length) ∧ k = encode (key.map (row.getD · .null)) := by
  have hcells : ∀ vs, key.mapM (cell row) = .ok vs ↔
      (∀ i ∈ key, i < row.length) ∧ vs = key.map (row.getD · .null) :=
    fun vs => Keyed.mapM_ok_iff fun i _ v => cell_ok_iff
  unfold keyOf
  cases hm : key.mapM (cell row) with
  | error e =>
    have hno : ¬ ∀ i ∈ key, i < row.length := fun hall => by
      simp [(hcells _).2 ⟨hall, rfl⟩] at hm
    simp [hno, bind, Except.bind]
  | ok vs =>
    obtain ⟨hall, rfl⟩ := (hcells vs).1 hm
    simp only [bind, Except.bind, pure, Except.pure, Except.ok.injEq]
    exact ⟨fun h => ⟨hall, h.symm⟩, fun h => h.2.symm⟩

/-- **A comparison by key fails exactly on a row too short for the key.** -/
theorem keyedDiff_ok_iff {old new : List (List Value)} {key : List ℕ} :
    (∃ d, keyedDiff old new key = .ok d) ↔ ∀ row ∈ old ++ new, ∀ i ∈ key, i < row.length := by
  have hkeys : ∀ (rows : List (List Value)) ks, rows.mapM (keyOf key) = .ok ks ↔
      (∀ row ∈ rows, ∀ i ∈ key, i < row.length) ∧
        ks = rows.map (fun row => encode (key.map (row.getD · .null))) :=
    fun rows ks => Keyed.mapM_ok_iff fun row _ k => keyOf_ok_iff
  rw [List.forall_mem_append]
  unfold keyedDiff
  constructor
  · rintro ⟨d, h⟩
    cases hold : old.mapM (keyOf key) with
    | error e => rw [hold] at h; cases h
    | ok ks =>
      cases hnew : new.mapM (keyOf key) with
      | error e => rw [hold, hnew] at h; cases h
      | ok ks' => exact ⟨((hkeys old ks).1 hold).1, ((hkeys new ks').1 hnew).1⟩
  · rintro ⟨hold, hnew⟩
    rw [(hkeys old _).2 ⟨hold, rfl⟩, (hkeys new _).2 ⟨hnew, rfl⟩]
    exact ⟨_, rfl⟩

/-! ### Encodings are told apart -/

theorem leBytes_inj {v w : UInt64} (h : leBytes v = leBytes w) : v = w := by
  have hbytes : ∀ k < 8, v.toNat / 2 ^ (8 * k) % 256 = w.toNat / 2 ^ (8 * k) % 256 := by
    intro k hk
    have hbyte := congrArg UInt8.toNat (List.map_inj_left.1 h k (List.mem_range.2 hk))
    have hlt : 8 * k % 64 = 8 * k := by omega
    have hlt' : 8 * k % 2 ^ 64 = 8 * k := by omega
    simpa [Nat.shiftRight_eq_div_pow, hlt, hlt'] using hbyte
  have hv := v.toNat_lt
  have hw := w.toNat_lt
  have h0 := hbytes 0
  have h1 := hbytes 1
  have h2 := hbytes 2
  have h3 := hbytes 3
  have h4 := hbytes 4
  have h5 := hbytes 5
  have h6 := hbytes 6
  have h7 := hbytes 7
  apply UInt64.toNat.inj
  omega

theorem toList_loop (bs : ByteArray) (i : ℕ) (r : List UInt8) :
    ByteArray.toList.loop bs i r = r.reverse ++ bs.data.toList.drop i := by
  fun_induction ByteArray.toList.loop bs i r with
  | case1 i r hi ih =>
    have hget : bs.get! i = bs.data.toList[i] := by
      simp [ByteArray.get!, getElem!_pos bs.data i hi]
    rw [ih, List.drop_eq_getElem_cons (i := i) hi, hget]
    simp
  | case2 i r hi => rw [List.drop_eq_nil_of_le (Nat.not_lt.1 hi), List.append_nil]

theorem toUTF8_toList (s : String) : s.toUTF8.toList = s.toByteArray.data.toList :=
  toList_loop s.toByteArray 0 []

theorem toUTF8_toList_inj {s t : String} (h : s.toUTF8.toList = t.toUTF8.toList) : s = t := by
  rw [toUTF8_toList, toUTF8_toList, Array.toList_inj] at h
  exact String.toByteArray_inj.1 (ByteArray.ext h)

theorem length_toUTF8_toList (s : String) : s.toUTF8.toList.length = s.utf8ByteSize := by
  rw [toUTF8_toList]
  rfl

/-- No `String` or `Vec` is longer than `isize::MAX`. -/
def Held : Value → Prop
  | .text t => t.utf8ByteSize ≤ 9223372036854775807
  | .blob b => b.length ≤ 9223372036854775807
  | _ => True

theorem leBytes_append_inj {v w : UInt64} {x y : List UInt8} (h : leBytes v ++ x = leBytes w ++ y) :
    v = w ∧ x = y := by
  obtain ⟨hword, hrest⟩ := List.append_inj h (by simp [leBytes])
  exact ⟨leBytes_inj hword, hrest⟩

/-- Bytes after their number can be told from what follows them. -/
theorem counted_inj {b c x y : List UInt8} (hb : Held (.blob b)) (hc : Held (.blob c))
    (h : leBytes (UInt64.ofNat b.length) ++ b ++ x = leBytes (UInt64.ofNat c.length) ++ c ++ y) :
    b = c ∧ x = y := by
  rw [List.append_assoc, List.append_assoc] at h
  obtain ⟨hcount, hrest⟩ := leBytes_append_inj h
  have hlength : b.length = c.length := by
    have hcount' := congrArg UInt64.toNat hcount
    simp only [UInt64.toNat_ofNat', Held] at hcount' hb hc
    omega
  exact List.append_inj hrest hlength

theorem encodeValue_append_inj {v w : Value} (hv : Held v) (hw : Held w) {x y : List UInt8}
    (h : encodeValue v ++ x = encodeValue w ++ y) : v = w ∧ x = y := by
  -- the first byte tells the kind of the value
  cases v <;> cases w <;>
    simp only [encodeValue, List.cons_append, List.nil_append, List.cons.injEq, true_and,
      ← length_toUTF8_toList] at h
  case null.null => exact ⟨rfl, h⟩
  case integer.integer i j =>
    obtain ⟨hij, hrest⟩ := leBytes_append_inj h
    exact ⟨congrArg _ (congrArg Int64.ofUInt64 hij), hrest⟩
  case real.real =>
    obtain ⟨rfl, hrest⟩ := leBytes_append_inj h
    exact ⟨rfl, hrest⟩
  case text.text s t =>
    simp only [Held, ← length_toUTF8_toList] at hv hw
    obtain ⟨hst, hrest⟩ := counted_inj hv hw h
    exact ⟨congrArg _ (toUTF8_toList_inj hst), hrest⟩
  case blob.blob =>
    obtain ⟨rfl, hrest⟩ := counted_inj hv hw h
    exact ⟨rfl, hrest⟩
  all_goals exact absurd h.1 (by decide)

theorem encodeValue_ne_nil (v : Value) : encodeValue v ≠ [] := by
  cases v <;> simp [encodeValue]

/-- **Two lists of values have one encoding only if they are equal**, so that rows grouped by an
encoded key are grouped by the key. -/
theorem encode_inj_iff {a b : List Value} (ha : ∀ v ∈ a, Held v) (hb : ∀ v ∈ b, Held v) :
    encode a = encode b ↔ a = b := by
  refine ⟨fun h => ?_, congrArg encode⟩
  induction a generalizing b with
  | nil =>
    cases b with
    | nil => rfl
    | cons w b => simp [encode, encodeValue_ne_nil] at h
  | cons v a ih =>
    cases b with
    | nil => simp [encode, encodeValue_ne_nil] at h
    | cons w b =>
      rw [List.forall_mem_cons] at ha hb
      obtain ⟨rfl, hrest⟩ := encodeValue_append_inj ha.1 hb.1 h
      rw [ih ha.2 hb.2 hrest]

theorem encode_inj_iff_text :
    encode [.text "a", .null] = encode [.blob [97], .null] ↔
      [Value.text "a", .null] = [.blob [97], .null] :=
  encode_inj_iff (by simp [Held]; decide) (by simp [Held])

end SqlAnywhere.Live
