import Mathlib.Data.List.Infix

/-!
# The directories of namespaces

The database of a namespace is in the directory that `base_path.join("dbs").join(name)` leads to, and
this is where it is created, where a fork is moved to and what is removed with it.  A name is any text
that is not empty.

* `join`, `resolve` — joining paths, and the directory that a path leads to
* `Isolated` — the directories of two namespaces are apart, and inside that of all databases
* `isolated_iff` — the names that are isolated whatever the base path is
-/

namespace SqlAnywhere.Server.NamespacePath

open List Option

/-! ### Paths -/

/-- The name of an entry of a directory. -/
abbrev Component := List Char

def isAbsolute (path : List Char) : Bool := path.head? = some '/'

def join (path path' : List Char) : List Char :=
  if isAbsolute path' then path'
  else if path = [] ∨ path.getLast? = some '/' then path ++ path'
  else path ++ '/' :: path'

/-- The directory after one component of a path; the parent of the root is the root. -/
def enter (dir : List Component) (name : Component) : List Component :=
  if name = [] ∨ name = ['.'] then dir
  else if name = ['.', '.'] then dir.dropLast
  else dir ++ [name]

/-- The directory that a path leads to, from the root down, where no directory on the way is a
symbolic link. -/
def resolve (cwd : List Component) (path : List Char) : List Component :=
  (path.splitOn '/').foldl enter (if isAbsolute path then [] else cwd)

/-! ### Namespaces -/

structure NamespaceName where
  text : List Char
  ne : text ≠ []

/-- `NamespaceName::from_string`, with what `validate` asks for. -/
def NamespaceName.fromString (s : List Char) : Option NamespaceName :=
  if h : s = [] then none else some ⟨s, h⟩

def dbs : Component := ['d', 'b', 's']

def dbsDir (cwd : List Component) (basePath : List Char) : List Component :=
  resolve cwd (join basePath dbs)

/-- The directory of a namespace: `make_namespace` and the fork create it, and `cleanup` and a fork
that failed remove it. -/
def namespaceDir (cwd : List Component) (basePath : List Char) (name : NamespaceName) :
    List Component :=
  resolve cwd (join (join basePath dbs) name.text)

/-- A directory that is somewhere in another one. -/
def Inside (dir dir' : List Component) : Prop := dir' <+: dir ∧ dir ≠ dir'

/-- The directories of two namespaces. -/
structure Isolated (cwd : List Component) (basePath : List Char) (a b : NamespaceName) : Prop where
  ne : namespaceDir cwd basePath a ≠ namespaceDir cwd basePath b
  left : ¬ Inside (namespaceDir cwd basePath a) (namespaceDir cwd basePath b)
  right : ¬ Inside (namespaceDir cwd basePath b) (namespaceDir cwd basePath a)
  leftInside : Inside (namespaceDir cwd basePath a) (dbsDir cwd basePath)
  rightInside : Inside (namespaceDir cwd basePath b) (dbsDir cwd basePath)

/-! ### Where a name leads to -/

/-- One component of a name, in the directory that has `dbs` in it; `none` is further up. -/
def stay (dir : List Component) (name : Component) : Option (List Component) :=
  if name = [] ∨ name = ['.'] then some dir
  else if name = ['.', '.'] then
    match dir with
    | [] => none
    | _ => some dir.dropLast
  else some (dir ++ [name])

/-- The place of a namespace under `dbs`, if its name is not absolute and its components never lead
above the directory that has `dbs` in it. -/
def below (name : NamespaceName) : Option (List Component) :=
  if isAbsolute name.text then none
  else
    match (name.text.splitOn '/').foldlM stay [dbs] with
    | some (first :: rest) => if first = dbs then some rest else none
    | _ => none

theorem isAbsolute_append {path path' : List Char} (h : path ≠ []) :
    isAbsolute (path ++ path') = isAbsolute path := by
  obtain ⟨c, path, rfl⟩ := exists_cons_of_ne_nil h
  rfl

theorem enter_nil (dir : List Component) : enter dir [] = dir := if_pos (.inl rfl)

variable (cwd : List Component)
include cwd

/-- **A path that is joined to another one leads on from there, unless it is absolute.** -/
theorem resolve_join (path path' : List Char) :
    resolve cwd (join path path') =
      (path'.splitOn '/').foldl enter (if isAbsolute path' then [] else resolve cwd path) := by
  unfold join
  by_cases habs : isAbsolute path' = true
  · rw [if_pos habs, resolve, if_pos habs, if_pos habs]
  rw [if_neg habs, if_neg habs]
  by_cases hempty : path = []
  · rw [if_pos (.inl hempty), hempty, nil_append, resolve, if_neg habs]
    rfl
  · by_cases hslash : path.getLast? = some '/'
    · obtain ⟨init, rfl⟩ := getLast?_eq_some_iff.1 hslash
      have hsplit : (init ++ ['/']).splitOn '/' = init.splitOn '/' ++ [[]] :=
        splitOn_append_cons_self init []
      rw [if_pos (.inr hslash), resolve, resolve, isAbsolute_append hempty, hsplit,
        append_assoc, singleton_append, splitOn_append_cons_self, foldl_append,
        foldl_append, foldl_cons, foldl_nil, enter_nil]
    · rw [if_neg (not_or_intro hempty hslash), resolve, resolve, isAbsolute_append hempty,
        splitOn_append_cons_self, foldl_append]

theorem dbsDir_eq (basePath : List Char) :
    dbsDir cwd basePath = resolve cwd basePath ++ [dbs] :=
  resolve_join cwd basePath dbs

theorem namespaceDir_eq (basePath : List Char) (name : NamespaceName) :
    namespaceDir cwd basePath name = (name.text.splitOn '/').foldl enter
      (if isAbsolute name.text then [] else dbsDir cwd basePath) :=
  resolve_join cwd (join basePath dbs) name.text

omit cwd

/-! ### Names that stay -/

theorem enter_of_stay {name : Component} {dir dir' : List Component}
    (h : stay dir name = some dir') (parent : List Component) :
    enter (parent ++ dir) name = parent ++ dir' := by
  unfold stay at h
  unfold enter
  split_ifs at h ⊢
  · rw [some.inj h]
  · split at h
    · cases h
    · next hne =>
      rw [← some.inj h]
      exact dropLast_append_of_ne_nil fun hnil => hne hnil
  · rw [← some.inj h, append_assoc]

theorem foldl_enter_of_stay {names : List Component} {dir dir' : List Component}
    (h : names.foldlM stay dir = some dir') (parent : List Component) :
    names.foldl enter (parent ++ dir) = parent ++ dir' := by
  induction names generalizing dir with
  | nil =>
    cases h
    rfl
  | cons name names ih =>
    rw [foldlM_cons] at h
    obtain ⟨mid, hmid, hrest⟩ := bind_eq_some_iff.1 h
    rw [foldl_cons, enter_of_stay hmid]
    exact ih hrest

theorem below_eq_some {name : NamespaceName} {rest : List Component} :
    below name = some rest ↔ isAbsolute name.text = false ∧
      (name.text.splitOn '/').foldlM stay [dbs] = some (dbs :: rest) := by
  unfold below
  split_ifs with habs
  · exact ⟨nofun, fun h => absurd (habs.symm.trans h.1) nofun⟩
  rw [Bool.not_eq_true] at habs
  rw [and_iff_right habs]
  split
  · next first rest' heq =>
    rw [heq]
    split_ifs with hfirst
    · rw [hfirst]
      exact ⟨fun h => congrArg some (congrArg _ (some.inj h)),
        fun h => congrArg some (cons.inj (some.inj h)).2⟩
    · exact ⟨nofun, fun h => absurd (cons.inj (some.inj h)).1 hfirst⟩
  · next hne =>
    exact ⟨nofun, fun h => absurd h (hne _ _)⟩

theorem namespaceDir_of_below {name : NamespaceName} {rest : List Component}
    (h : below name = some rest) (cwd : List Component) (basePath : List Char) :
    namespaceDir cwd basePath name = dbsDir cwd basePath ++ rest := by
  obtain ⟨habs, hstay⟩ := below_eq_some.1 h
  rw [namespaceDir_eq, habs, if_neg nofun, dbsDir_eq, foldl_enter_of_stay hstay,
    append_assoc, singleton_append]

/-- The places of two namespaces under `dbs`, apart from each other. -/
structure Apart (a b : NamespaceName) (rest rest' : List Component) : Prop where
  left : below a = some rest
  right : below b = some rest'
  left_ne : rest ≠ []
  right_ne : rest' ≠ []
  not_left : ¬ rest <+: rest'
  not_right : ¬ rest' <+: rest

theorem inside_append {dir rest : List Component} (h : rest ≠ []) : Inside (dir ++ rest) dir :=
  ⟨prefix_append .., fun heq => h (append_right_eq_self.1 heq)⟩

theorem Apart.isolated {a b : NamespaceName} {rest rest' : List Component}
    (h : Apart a b rest rest') (cwd : List Component) (basePath : List Char) :
    Isolated cwd basePath a b := by
  have ha := namespaceDir_of_below h.left cwd basePath
  have hb := namespaceDir_of_below h.right cwd basePath
  refine ⟨?_, ?_, ?_, ?_, ?_⟩
  · rw [ha, hb]
    intro heq
    exact h.not_left ((append_cancel_left heq) ▸ prefix_rfl)
  · rw [ha, hb]
    exact fun hin => h.not_right ((prefix_append_right_inj _).1 hin.1)
  · rw [ha, hb]
    exact fun hin => h.not_left ((prefix_append_right_inj _).1 hin.1)
  · rw [ha]
    exact inside_append h.left_ne
  · rw [hb]
    exact inside_append h.right_ne

/-! ### Names that lead away -/

theorem enter_head {fresh name : Component} (hname : name ≠ fresh) {dir : List Component}
    (hdir : dir.head? ≠ some fresh) : (enter dir name).head? ≠ some fresh := by
  unfold enter
  split_ifs
  · exact hdir
  · rcases dir with _ | ⟨first, _ | ⟨second, dir⟩⟩
    · nofun
    · nofun
    · exact hdir
  · cases dir with
    | nil => exact fun heq => hname (some.inj heq)
    | cons first dir => exact hdir

/-- A directory with another name is not left for one with a name that does not come up. -/
theorem foldl_enter_head {fresh : Component} {names : List Component} (hfresh : fresh ∉ names)
    {dir : List Component} (hdir : dir.head? ≠ some fresh) :
    (names.foldl enter dir).head? ≠ some fresh := by
  induction names generalizing dir with
  | nil => exact hdir
  | cons name names ih =>
    rw [mem_cons, not_or] at hfresh
    exact ih hfresh.2 (enter_head (Ne.symm hfresh.1) hdir)

theorem foldl_enter_of_not_stay {fresh : Component} {names : List Component}
    (hfresh : fresh ∉ names) {dir : List Component} (h : names.foldlM stay dir = none) :
    (names.foldl enter (fresh :: dir)).head? ≠ some fresh := by
  induction names generalizing dir with
  | nil => cases h
  | cons name names ih =>
    have htail := fun hmem => hfresh (mem_cons_of_mem name hmem)
    rw [foldlM_cons] at h
    rw [foldl_cons]
    cases hstay : stay dir name with
    | some mid =>
      rw [hstay] at h
      have henter : enter (fresh :: dir) name = fresh :: mid := enter_of_stay hstay [fresh]
      rw [henter]
      exact ih htail h
    | none =>
      -- the parent of the directory above `dbs` is the root
      have hroot : enter (fresh :: dir) name = [] := by
        unfold stay at hstay
        unfold enter
        split_ifs at hstay ⊢
        split at hstay
        · rfl
        · cases hstay
      rw [hroot]
      exact foldl_enter_head htail nofun

theorem length_le_of_mem_splitOn {text : List Char} {name : Component}
    (h : name ∈ text.splitOn '/') : name.length ≤ text.length := by
  induction text generalizing name with
  | nil =>
    rw [splitOn_nil, mem_singleton] at h
    rw [h]
  | cons c text ih =>
    rw [splitOn_cons_eq_if_modifyHead] at h
    split_ifs at h
    · rcases mem_cons.1 h with rfl | h
      · exact Nat.zero_le _
      · exact Nat.le_succ_of_le (ih h)
    · have hne : text.splitOn '/' ≠ [] := fun hnil => splitOn_ne_nil _ _ hnil
      obtain ⟨first, rest, hsplit⟩ := exists_cons_of_ne_nil hne
      rw [hsplit, modifyHead_cons] at h
      rcases mem_cons.1 h with rfl | h
      · exact Nat.succ_le_succ (ih (by rw [hsplit]; exact mem_cons_self ..))
      · exact Nat.le_succ_of_le (ih (by rw [hsplit]; exact mem_cons_of_mem _ h))

/-- A component that does not come up in a name. -/
def fresh (name : NamespaceName) : Component := List.replicate (name.text.length + 1) 'a'

theorem fresh_notMem (name : NamespaceName) : fresh name ∉ name.text.splitOn '/' := by
  intro hmem
  have hle := length_le_of_mem_splitOn hmem
  rw [fresh, length_replicate] at hle
  omega

/-- The base path `/aaa…`. -/
theorem resolve_fresh (cwd : List Component) (name : NamespaceName) :
    resolve cwd ('/' :: fresh name) = [fresh name] := by
  have hslash : '/' ∉ fresh name := by
    intro hmem
    exact absurd (eq_of_mem_replicate hmem) (by decide)
  have hsplit : ('/' :: fresh name).splitOn '/' = [[], fresh name] := by
    have h := splitOn_append_cons_self (a := '/') [] (fresh name)
    rw [splitOn_eq_singleton hslash] at h
    exact h
  have hhead : (fresh name).head? = some 'a' := rfl
  rw [resolve, hsplit, foldl_cons, foldl_cons, foldl_nil, enter_nil]
  show enter [] (fresh name) = _
  rw [enter, if_neg, if_neg, nil_append]
  · intro heq
    rw [heq] at hhead
    exact absurd (some.inj hhead) (by decide)
  · rintro (heq | heq)
    · simp [heq] at hhead
    · rw [heq] at hhead
      exact absurd (some.inj hhead) (by decide)

/-- A name whose directory is inside that of all databases, for every base path, stays there. -/
theorem below_of_inside {name : NamespaceName}
    (h : ∀ cwd basePath, Inside (namespaceDir cwd basePath name) (dbsDir cwd basePath)) :
    ∃ rest, below name = some rest ∧ rest ≠ [] := by
  obtain ⟨hpre, hne⟩ := h [] ('/' :: fresh name)
  rw [dbsDir_eq, resolve_fresh] at hpre hne
  have hfirst : (namespaceDir [] ('/' :: fresh name) name).head? = some (fresh name) := by
    obtain ⟨rest, hrest⟩ := hpre
    rw [← hrest]
    rfl
  rw [namespaceDir_eq, dbsDir_eq, resolve_fresh] at hfirst hpre hne
  cases habs : isAbsolute name.text with
  | true =>
    rw [habs, if_pos rfl] at hfirst
    exact absurd hfirst (foldl_enter_head (fresh_notMem name) nofun)
  | false =>
    rw [habs, if_neg nofun] at hfirst hpre hne
    cases hstay : (name.text.splitOn '/').foldlM stay [dbs] with
    | none => exact absurd hfirst (foldl_enter_of_not_stay (fresh_notMem name) hstay)
    | some dir =>
      rw [foldl_enter_of_stay hstay [fresh name]] at hpre hne
      obtain ⟨rest, rfl⟩ := (prefix_append_right_inj _).1 hpre
      refine ⟨rest, below_eq_some.2 ⟨habs, hstay⟩, ?_⟩
      rintro rfl
      exact hne rfl

/-- **The namespaces that are isolated on every server.**  Both names are relative, they lead from
`dbs` to places below it without leaving the directory that has `dbs` in it, and neither place is the
other one or contains it. -/
theorem isolated_iff (a b : NamespaceName) :
    (∀ cwd basePath, Isolated cwd basePath a b) ↔ ∃ rest rest', Apart a b rest rest' := by
  constructor
  · intro h
    obtain ⟨rest, ha, hrest⟩ := below_of_inside fun cwd basePath => (h cwd basePath).leftInside
    obtain ⟨rest', hb, hrest'⟩ := below_of_inside fun cwd basePath => (h cwd basePath).rightInside
    obtain ⟨hne, hleft, hright, -, -⟩ := h [] []
    rw [namespaceDir_of_below ha, namespaceDir_of_below hb] at hne hleft hright
    refine ⟨rest, rest', ha, hb, hrest, hrest', ?_, ?_⟩
    · intro hpre
      exact hright ⟨(List.prefix_append_right_inj _).2 hpre, hne.symm⟩
    · intro hpre
      exact hleft ⟨(List.prefix_append_right_inj _).2 hpre, hne⟩
  · rintro ⟨rest, rest', h⟩ cwd basePath
    exact h.isolated cwd basePath

/-! ### Names of one component -/

/-- A name that is one entry of a directory. -/
structure Plain (name : NamespaceName) : Prop where
  slash : '/' ∉ name.text
  dot : name.text ≠ ['.']
  dotDot : name.text ≠ ['.', '.']

theorem below_of_plain {name : NamespaceName} (h : Plain name) :
    below name = some [name.text] := by
  refine below_eq_some.2 ⟨?_, ?_⟩
  · rw [isAbsolute, decide_eq_false_iff_not]
    exact fun hhead => h.slash (mem_of_head? hhead)
  · have hstay : stay [dbs] name.text = some [dbs, name.text] := by
      unfold stay
      rw [if_neg (not_or_intro name.ne h.dot), if_neg h.dotDot]
      rfl
    rw [splitOn_eq_singleton h.slash, foldlM_cons, hstay]
    rfl

/-- Two names that are one ordinary component each are isolated, on every server. -/
theorem isolated_of_plain {a b : NamespaceName} (ha : Plain a) (hb : Plain b)
    (hne : a.text ≠ b.text) (cwd : List Component) (basePath : List Char) :
    Isolated cwd basePath a b := by
  have hapart : Apart a b [a.text] [b.text] := by
    refine ⟨below_of_plain ha, below_of_plain hb, nofun, nofun, ?_, ?_⟩
    · exact fun hpre => hne (cons_prefix_cons.1 hpre).1
    · exact fun hpre => hne (cons_prefix_cons.1 hpre).1.symm
  exact hapart.isolated cwd basePath

section Example

instance (dir dir' : List Component) : Decidable (Inside dir dir') :=
  inferInstanceAs (Decidable (_ ∧ _))

/-- The base path `/data`. -/
def dataPath : List Char := ['/', 'd', 'a', 't', 'a']

def plainName : NamespaceName := ⟨['a'], nofun⟩

def parentName : NamespaceName := ⟨['.', '.'], nofun⟩

def absoluteName : NamespaceName := ⟨['/', 'e', 't', 'c'], nofun⟩

def nestedName : NamespaceName := ⟨['a', '/', 'b'], nofun⟩

def dottedName : NamespaceName := ⟨['.', '/', 'a'], nofun⟩

/-- `..` is the directory of the server itself, `/etc` is outside of it, `a/b` is inside the namespace
`a`, and `./a` is that namespace.  All of them are accepted. -/
theorem names_not_isolated :
    (∀ name ∈ [parentName, absoluteName, nestedName, dottedName],
        NamespaceName.fromString name.text = some name ∧ name.text ≠ plainName.text ∧
          ¬ Isolated [] dataPath plainName name) ∧
      namespaceDir [] dataPath parentName = [['d', 'a', 't', 'a']] ∧
      namespaceDir [] dataPath absoluteName = [['e', 't', 'c']] ∧
      Inside (namespaceDir [] dataPath nestedName) (namespaceDir [] dataPath plainName) ∧
      namespaceDir [] dataPath dottedName = namespaceDir [] dataPath plainName := by
  refine ⟨?_, by decide +kernel, by decide +kernel, by decide +kernel, by decide +kernel⟩
  intro name hname
  simp only [List.mem_cons, List.not_mem_nil, or_false] at hname
  rcases hname with rfl | rfl | rfl | rfl
  · exact ⟨rfl, by decide, fun h => absurd h.rightInside (by decide +kernel)⟩
  · exact ⟨rfl, by decide, fun h => absurd h.rightInside (by decide +kernel)⟩
  · exact ⟨rfl, by decide, fun h => absurd h.right (by decide +kernel)⟩
  · exact ⟨rfl, by decide, fun h => absurd h.ne (by decide +kernel)⟩

end Example

end SqlAnywhere.Server.NamespacePath
