import Mathlib.Data.List.Infix

/-!
# The announcements in a stream of server-sent events

`hrana/listen.rs`: the bytes of the stream come in chunks that are cut anywhere.  Carriage returns
are dropped, and the events that are complete are taken out of the buffer.

* `takeEvents` — takes the events out of a buffer and counts those that announce something
* `announcements` — the items of the stream
* `Events` — how a text falls into events
* `Named` — the name of an event, by its lines
* `announcements_events` — the items are those of the events of the whole text
-/

namespace SqlAnywhere.Client.Listen

open List

abbrev Bytes := List UInt8

def ascii (text : String) : Bytes := text.toList.map fun c => UInt8.ofNat c.toNat

/-- The white space that `str::trim` removes, in UTF-8. -/
def whitespace : List Bytes :=
  [[0x09], [0x0a], [0x0b], [0x0c], [0x0d], [0x20], [0xc2, 0x85], [0xc2, 0xa0], [0xe1, 0x9a, 0x80],
    [0xe2, 0x80, 0xa8], [0xe2, 0x80, 0xa9], [0xe2, 0x80, 0xaf], [0xe2, 0x81, 0x9f],
    [0xe3, 0x80, 0x80]] ++ (range 11).map fun i => [0xe2, 0x80, 0x80 + UInt8.ofNat i]

/-- The text without the one of the codes that it begins with. -/
def strip (codes : List Bytes) (text : Bytes) : Bytes :=
  match codes.find? fun w => w.isPrefixOf text with
  | some w => text.drop w.length
  | none => text

/-- `str::trim`.  What is not UTF-8 is decoded to a character that is no white space. -/
def trim (text : Bytes) : Bytes :=
  let start := (strip whitespace)^[text.length] text
  ((strip (whitespace.map reverse))^[start.length] start.reverse).reverse

/-- The name of an event: its first line that has one. -/
def name (event : Bytes) : Option Bytes :=
  ((event.splitOn 10).findSome? fun line =>
    if (ascii "event:").isPrefixOf line then some (line.drop 6) else none).map trim

def announces (event : Bytes) : Bool :=
  name event = some (ascii "changes") || name event = some (ascii "error")

/-- `buf.windows(2).position(|w| w == b"\n\n")`. -/
def position : Bytes → Option ℕ
  | a :: b :: rest => if a = 10 ∧ b = 10 then some 0 else (position (b :: rest)).map (· + 1)
  | _ => none

theorem position_le {buf : Bytes} {e : ℕ} (h : position buf = some e) : e + 2 ≤ buf.length := by
  fun_induction position buf generalizing e with
  | case1 => cases h; simp
  | case2 a b rest hne ih =>
    obtain ⟨e', he', rfl⟩ := Option.map_eq_some_iff.1 h
    have := ih he'
    simp only [length_cons] at this ⊢
    omega
  | case3 => cases h

/-- Take the complete events out of the buffer. -/
def takeEvents (buf : Bytes) : ℕ × Bytes :=
  match _h : position buf with
  | none => (0, buf)
  | some e =>
    let (count, rest) := takeEvents (buf.drop (e + 2))
    ((if announces (buf.take (e + 2)) then 1 else 0) + count, rest)
termination_by buf.length
decreasing_by
  have := position_le _h
  simp only [length_drop]
  omega

/-- The items of the stream: those that are ready are handed out before the next chunk is read, and
an error of the body leaves nothing in the buffer. -/
def items {ε : Type*} : List (Except ε Bytes) → Bytes → List (Except ε Unit)
  | [], _ => []
  | .ok chunk :: body, buf =>
    let (ready, buf) := takeEvents (buf ++ chunk.filter (· ≠ 13))
    replicate ready (.ok ()) ++ items body buf
  | .error e :: body, _ => .error e :: items body []

def announcements {ε : Type*} (body : List (Except ε Bytes)) : List (Except ε Unit) := items body []

/-! ### The events of a text -/

/-- A text falls into events, each of which ends with its first empty line, and a rest that has no
empty line. -/
inductive Events : Bytes → List Bytes → Bytes → Prop
  | rest {rest : Bytes} (h : ¬ [10, 10] <:+: rest) : Events rest [] rest
  | event {lines text rest : Bytes} {events : List Bytes} (h : ¬ [10, 10] <:+: lines ++ [10])
      (htext : Events text events rest) :
      Events (lines ++ [10, 10] ++ text) ((lines ++ [10, 10]) :: events) rest

/-- The text is made up of some of the codes. -/
def Made (codes : List Bytes) (text : Bytes) : Prop :=
  ∃ ws : List Bytes, (∀ w ∈ ws, w ∈ codes) ∧ ws.flatten = text

/-- An event has the name: of its lines, the first that begins with `event:` has the name after that,
with nothing but white space around it. -/
def Named (name event : Bytes) : Prop :=
  ∃ lines more left right,
    let line := ascii "event:" ++ (left ++ name ++ right)
    [10].intercalate (lines ++ line :: more) = event ∧ (∀ l ∈ lines ++ line :: more, 10 ∉ l) ∧
      (∀ l ∈ lines, ¬ascii "event:" <+: l) ∧ Made whitespace left ∧ Made whitespace right

/-- The event announces changes, or that some were lost. -/
def Announces (event : Bytes) : Prop :=
  Named (ascii "changes") event ∨ Named (ascii "error") event

/-! ### The name of an event -/

section Strip

variable {codes : List Bytes} {text left rest : Bytes}

theorem strip_cases (codes : List Bytes) (text : Bytes) :
    strip codes text = text ∨ ∃ w ∈ codes, text = w ++ strip codes text := by
  unfold strip
  split
  · rename_i w hfind
    obtain ⟨tail, rfl⟩ := isPrefixOf_iff_prefix.1
      (find?_some (p := fun w : Bytes => w.isPrefixOf text) hfind)
    exact .inr ⟨w, mem_of_find?_eq_some hfind, by rw [drop_left]⟩
  · exact .inl rfl

theorem made_iterate_strip (codes : List Bytes) (k : ℕ) (text : Bytes) :
    ∃ left, Made codes left ∧ text = left ++ (strip codes)^[k] text := by
  induction k generalizing text with
  | zero => exact ⟨[], ⟨[], by simp, rfl⟩, rfl⟩
  | succ k ih =>
    obtain ⟨_, ⟨ws, hws, rfl⟩, heq⟩ := ih (strip codes text)
    rw [Function.iterate_succ_apply]
    obtain hsame | ⟨w, hw, htext⟩ := strip_cases codes text
    · rw [hsame] at heq ⊢
      exact ⟨_, ⟨ws, hws, rfl⟩, heq⟩
    · refine ⟨_, ⟨w :: ws, forall_mem_cons.2 ⟨hw, hws⟩, rfl⟩, ?_⟩
      rw [flatten_cons, append_assoc, ← heq, ← htext]

/-- No code is empty or begins with another. -/
def PrefixFree (codes : List Bytes) : Prop :=
  ∀ w ∈ codes, w ≠ [] ∧ ∀ w' ∈ codes, w.isPrefixOf w' = true → w = w'

instance : Decidable (PrefixFree codes) := inferInstanceAs (Decidable (∀ w ∈ codes, _))

theorem strip_append (hfree : PrefixFree codes) {w : Bytes} (hw : w ∈ codes) (rest : Bytes) :
    strip codes (w ++ rest) = rest := by
  have hfind : codes.find? (fun w' => w'.isPrefixOf (w ++ rest)) = some w := by
    cases hfind : codes.find? fun w' => w'.isPrefixOf (w ++ rest) with
    | none => simpa using find?_eq_none.1 hfind w hw
    | some w' =>
      have hw' := mem_of_find?_eq_some hfind
      have hpre := isPrefixOf_iff_prefix.1
        (find?_some (p := fun v : Bytes => v.isPrefixOf (w ++ rest)) hfind)
      obtain h | h := prefix_or_prefix_of_prefix hpre (prefix_append w rest)
      · rw [(hfree w' hw').2 w hw ( isPrefixOf_iff_prefix.2 h)]
      · rw [(hfree w hw).2 w' hw' ( isPrefixOf_iff_prefix.2 h)]
  simp only [strip, hfind, drop_left]

/-- All of them go that stand before a text that begins with none. -/
theorem iterate_strip (hfree : PrefixFree codes) (hleft : Made codes left)
    (hrest : strip codes rest = rest) {k : ℕ} (hk : left.length ≤ k) :
    (strip codes)^[k] (left ++ rest) = rest := by
  obtain ⟨ws, hws, rfl⟩ := hleft
  induction ws generalizing k with
  | nil => exact Function.iterate_fixed hrest k
  | cons w ws ih =>
    obtain ⟨hw, hws⟩ := forall_mem_cons.1 hws
    have hpos := length_pos_iff.2 (hfree w hw).1
    simp only [flatten_cons, length_append] at hk
    obtain ⟨k, rfl⟩ := Nat.exists_eq_add_of_le' (show 1 ≤ k by omega)
    rw [Function.iterate_succ_apply, flatten_cons, append_assoc, strip_append hfree hw]
    exact ih hws (by omega)

theorem Made.reverse (h : Made codes text) : Made (codes.map reverse) text.reverse := by
  obtain ⟨ws, hws, rfl⟩ := h
  refine ⟨(ws.map List.reverse).reverse, fun w hw => ?_, reverse_flatten.symm⟩
  obtain ⟨v, hv, rfl⟩ := mem_map.1 (mem_reverse.1 hw)
  exact mem_map_of_mem (hws v hv)

end Strip

/-- `trim` leaves what stands between white space. -/
theorem trim_eq_iff {text name : Bytes}
    (hstart : ∀ more, strip whitespace (name ++ more) = name ++ more)
    (hend : strip (whitespace.map reverse) name.reverse = name.reverse) :
    trim text = name ↔ ∃ left right, text = left ++ name ++ right ∧ Made whitespace left ∧
      Made whitespace right := by
  have hfree : PrefixFree whitespace := by decide
  have hfree' : PrefixFree (whitespace.map reverse) := by decide
  constructor
  · intro h
    obtain ⟨left, hleft, htext⟩ := made_iterate_strip whitespace text.length text
    generalize hrest : (strip whitespace)^[text.length] text = rest at htext
    rw [trim, hrest, reverse_eq_iff] at h
    obtain ⟨right, hright, heq⟩ := made_iterate_strip (whitespace.map reverse) rest.length rest.reverse
    rw [h, reverse_eq_iff, reverse_append, reverse_reverse] at heq
    refine ⟨left, right.reverse, by rw [htext, heq, append_assoc], hleft, ?_⟩
    simpa [map_map, Function.comp_def] using hright.reverse
  · rintro ⟨left, right, rfl, hleft, hright⟩
    rw [trim, append_assoc, iterate_strip hfree hleft (hstart right) (by simp), reverse_append,
      iterate_strip hfree' hright.reverse hend (by simp), reverse_reverse]

theorem notMem_of_mem_splitOn {text line : Bytes} (h : line ∈ text.splitOn 10) : 10 ∉ line := by
  induction text generalizing line with
  | nil =>
    rw [splitOn_eq_splitOnP, splitOnP_nil, mem_singleton] at h
    simp [h]
  | cons b text ih =>
    rw [splitOn_eq_splitOnP, splitOnP_cons_eq_if_modifyHead, ← splitOn_eq_splitOnP] at h
    split_ifs at h with hb
    · obtain rfl | h := mem_cons.1 h
      · exact not_mem_nil
      · exact ih h
    · obtain ⟨first, rest, hsplit⟩ := exists_cons_of_ne_nil (splitOn_ne_nil 10 text)
      rw [hsplit, modifyHead_cons] at h
      rw [hsplit] at ih
      obtain rfl | h := mem_cons.1 h
      · have hb' : b ≠ 10 := by simpa using hb
        exact fun h => (mem_cons.1 h).elim (fun h => hb' h.symm) (ih mem_cons_self)
      · exact ih (mem_cons_of_mem _ h)

theorem name_eq_some_iff {event n : Bytes}
    (hstart : ∀ more, strip whitespace (n ++ more) = n ++ more)
    (hend : strip (whitespace.map reverse) n.reverse = n.reverse) :
    name event = some n ↔ Named n event := by
  simp only [name, Option.map_eq_some_iff, findSome?_eq_some_iff, Option.ite_none_right_eq_some,
    isPrefixOf_iff_prefix, ite_eq_right_iff, reduceCtorEq, imp_false, Option.some.injEq,
    trim_eq_iff hstart hend]
  constructor
  · rintro ⟨_, ⟨lines, _, more, hlines, ⟨⟨rest, rfl⟩, rfl⟩, hfirst⟩, left, right, htext, hleft, hright⟩
    obtain rfl : rest = left ++ n ++ right := htext
    refine ⟨lines, more, left, right, ?_, fun l hl => ?_, hfirst, hleft, hright⟩
    · rw [← hlines, intercalate_splitOn]
    · exact notMem_of_mem_splitOn (hlines ▸ hl)
  · rintro ⟨lines, more, left, right, rfl, hline, hfirst, hleft, hright⟩
    exact ⟨_, ⟨lines, _, more, splitOn_intercalate 10 hline (by simp), ⟨⟨_, rfl⟩, rfl⟩, hfirst⟩,
      left, right, rfl, hleft, hright⟩

theorem announces_iff {event : Bytes} : announces event = true ↔ Announces event := by
  rw [announces, Bool.or_eq_true, decide_eq_true_eq, decide_eq_true_eq,
    name_eq_some_iff (fun _ => rfl) (by decide), name_eq_some_iff (fun _ => rfl) (by decide)]
  rfl

instance (event : Bytes) : Decidable (Announces event) := decidable_of_iff _ announces_iff

/-! ### The buffer -/

theorem position_eq_none {buf : Bytes} : position buf = none ↔ ¬ [10, 10] <:+: buf := by
  fun_induction position buf with
  | case1 a b rest h => simp [h.1, h.2, infix_cons_iff]
  | case2 a b rest h ih =>
    rw [Option.map_eq_none_iff, ih, infix_cons_iff (a := a)]
    simp only [cons_prefix_cons, nil_prefix, and_true, eq_comm (a := (10 : UInt8)), h, false_or]
  | case3 buf h =>
    rcases buf with _ | ⟨a, _ | ⟨b, rest⟩⟩
    · simp
    · simp [infix_cons_iff]
    · exact absurd rfl (h a b rest)

/-- The first empty line is where a piece ends that has none before. -/
theorem position_eq_some {buf : Bytes} {e : ℕ} : position buf = some e ↔
    ∃ lines text, buf = lines ++ [10, 10] ++ text ∧ lines.length = e ∧
      ¬ [10, 10] <:+: lines ++ [10] := by
  constructor
  · intro h
    fun_induction position buf generalizing e with
    | case1 a b rest hab =>
      cases h
      exact ⟨[], rest, by simp [hab], rfl, by simp [infix_cons_iff]⟩
    | case2 a b rest hne ih =>
      obtain ⟨e', he', rfl⟩ := Option.map_eq_some_iff.1 h
      obtain ⟨lines, text, heq, rfl, hnone⟩ := ih he'
      refine ⟨a :: lines, text, by simp [heq], rfl, fun hinfix => ?_⟩
      rcases infix_cons_iff.1 hinfix with hstart | hinfix
      · cases lines <;> simp_all [eq_comm]
      · exact hnone hinfix
    | case3 => cases h
  · rintro ⟨lines, text, rfl, rfl, hnone⟩
    induction lines with
    | nil => rfl
    | cons a lines ih =>
      have hrest := ih fun hinfix => hnone (infix_cons hinfix)
      have hfirst : ¬ (a = 10 ∧ (lines ++ [10]).head? = some 10) := by
        rintro ⟨rfl, hhead⟩
        obtain ⟨tail, htail⟩ := head?_eq_some_iff.1 hhead
        exact hnone ⟨[], tail, by simp [htail]⟩
      cases lines <;> simp_all [position]

theorem exists_events (text : Bytes) : ∃ events rest, Events text events rest := by
  fun_induction takeEvents text with
  | case1 text h => exact ⟨[], text, .rest (position_eq_none.1 h)⟩
  | case2 text e h count rest hrec ih =>
    obtain ⟨lines, text, rfl, rfl, hnone⟩ := position_eq_some.1 h
    obtain ⟨events, rest, hevents⟩ := ih
    rw [drop_left' (by simp)] at hevents
    exact ⟨_, rest, .event hnone hevents⟩

namespace Events

variable {text rest more rest' : Bytes} {events events' : List Bytes}

variable (h : Events text events rest)
include h

theorem takeEvents :
    takeEvents text = (events.countP announces, rest) := by
  induction h with
  | rest h =>
    rw [Listen.takeEvents, position_eq_none.2 h]
    rfl
  | @event lines text rest events h htext ih =>
    rw [Listen.takeEvents, position_eq_some.2 ⟨lines, text, rfl, rfl, h⟩]
    simp only [drop_left' (show (lines ++ [10, 10]).length = lines.length + 2 by simp),
      take_left' (show (lines ++ [10, 10]).length = lines.length + 2 by simp), ih, countP_cons]
    rw [Nat.add_comm]

theorem rest_incomplete : position rest = none := by
  induction h with
  | rest h => exact position_eq_none.2 h
  | event _ _ ih => exact ih

/-- What is complete stays so when more arrives. -/
theorem append (h' : Events (rest ++ more) events' rest') :
    Events (text ++ more) (events ++ events') rest' := by
  induction h with
  | rest h => exact h'
  | event h _ ih =>
    rw [append_assoc]
    exact .event h (ih h')

end Events

theorem items_eq {ε : Type*} (chunks : List Bytes) {buf : Bytes} (hbuf : position buf = none) :
    items (chunks.map (.ok : Bytes → Except ε Bytes)) buf =
      replicate (takeEvents (buf ++ chunks.flatten.filter (· ≠ 13))).1 (.ok ()) := by
  induction chunks generalizing buf with
  | nil =>
    have h := (Events.rest (position_eq_none.1 hbuf)).takeEvents
    simp [items, h]
  | cons chunk chunks ih =>
    obtain ⟨events, rest, h⟩ := exists_events (buf ++ chunk.filter (· ≠ 13))
    obtain ⟨events', rest', h'⟩ := exists_events (rest ++ chunks.flatten.filter (· ≠ 13))
    simp only [map_cons, items, h.takeEvents, ih h.rest_incomplete, h'.takeEvents, flatten_cons,
      filter_append, ← append_assoc, (h.append h').takeEvents, countP_append, replicate_add]

/-- **The stream has an item for each event that announces something**, in their order and however
the text was cut, and none for what is not complete. -/
theorem announcements_events {ε : Type*} (chunks : List Bytes) :
    (∃ events rest, Events (chunks.flatten.filter (· ≠ 13)) events rest) ∧
      ∀ events rest, Events (chunks.flatten.filter (· ≠ 13)) events rest →
        announcements (chunks.map (.ok : Bytes → Except ε Bytes)) =
          (events.filter fun event => Announces event).map fun _ => .ok () := by
  refine ⟨exists_events _, fun events rest h => ?_⟩
  have hcount : events.countP announces = events.countP fun event => Announces event :=
    countP_congr fun event _ => by rw [announces_iff, decide_eq_true_eq]
  rw [announcements, items_eq chunks rfl, nil_append, h.takeEvents, map_const', hcount,
    countP_eq_length_filter]

/-- An announcement that was cut in the middle of its name, and a keep-alive. -/
theorem announcements_cut :
    announcements (ε := Unit) [.ok (ascii "event: chan"), .ok (ascii "ges\r\n\r\n:\n\nevent: e")] =
      [.ok ()] := by
  have h : Events (ascii "event: changes\n\n:\n\nevent: e")
      [ascii "event: changes\n\n", ascii ":\n\n"] (ascii "event: e") :=
    @Events.event (ascii "event: changes") _ _ _ (by decide)
      (@Events.event (ascii ":") _ _ _ (by decide) (.rest (by decide)))
  exact ((announcements_events [ascii "event: chan", ascii "ges\r\n\r\n:\n\nevent: e"]).2 _ _ h).trans
    (by decide)

end SqlAnywhere.Client.Listen
