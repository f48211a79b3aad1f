import SqlAnywhere.Server.WriteProxy

/-!
# Programs that are reported as finished

* `Item.steps` — what an item of the stream has for a request
* `Finished` — the builder was given all steps up to the end of the program
* `execute_right_iff` — when a program that is reported as finished is
-/

namespace SqlAnywhere.Server.WriteProxy

variable {β ω : Type}

/-- The steps that an item has for the request.  What makes the request fail counts as one that is not
known. -/
def Item.steps (requestId : ℕ) : Item ω → List (RespStep ω)
  | .status => [.unknown]
  | .resp id response =>
    if requestId < id then [.unknown]
    else if id < requestId then []
    else
      match response with
      | some (.programResp steps) => steps
      | _ => [.unknown]

def Builder.feed (B : Builder β ω) (ops : List ω) (builder : β) : Option β :=
  ops.foldlM B.push builder

/-- The builder was given the steps up to the end, and the end. -/
def Finished (B : Builder β ω) (steps : List (RespStep ω)) (builder builder' : β)
    (isAutocommit : Bool) : Prop :=
  ∃ ops lastFrameNo rest b, steps = ops.map .build ++ .finish lastFrameNo isAutocommit :: rest ∧
    B.feed ops builder = some b ∧ B.finish b lastFrameNo isAutocommit = some builder'

variable {B : Builder β ω} {cb cb' : Callback β}

theorem applyProgramResp_append {steps : List (RespStep ω)} (steps' : List (RespStep ω))
    {more : Bool} (h : applyProgramResp B steps cb = (cb', .ok more)) :
    applyProgramResp B (steps ++ steps') cb =
      if more then applyProgramResp B steps' cb' else (cb', .ok false) := by
  induction steps generalizing cb with
  | nil =>
    cases h
    rfl
  | cons step steps ih =>
    cases step with
    | unknown => cases h
    | build op =>
      simp only [List.cons_append, applyProgramResp] at h ⊢
      split at h
      · cases h
      · exact ih h
    | finish lastFrameNo isAutocommit =>
      simp only [List.cons_append, applyProgramResp] at h ⊢
      split at h
      · cases h
      · cases h
        rfl

theorem applyProgramResp_error {steps : List (RespStep ω)} (steps' : List (RespStep ω)) {e : Error}
    (h : applyProgramResp B steps cb = (cb', .error e)) :
    applyProgramResp B (steps ++ steps') cb = (cb', .error e) := by
  induction steps generalizing cb with
  | nil => cases h
  | cons step steps ih =>
    cases step with
    | unknown => exact h
    | build op =>
      simp only [List.cons_append, applyProgramResp] at h ⊢
      split at h
      · exact h
      · exact ih h
    | finish lastFrameNo isAutocommit => exact h

/-- A request goes as if all its steps had come at once. -/
theorem makeRequest_ok_iff (requestId : ℕ) (items : List (Item ω)) (cb : Callback β) :
    makeRequest B requestId items cb = (cb', .ok ()) ↔
      ∃ more, applyProgramResp B (items.flatMap (Item.steps requestId)) cb = (cb', .ok more) := by
  induction items generalizing cb with
  | nil => simp [makeRequest, applyProgramResp]
  | cons item items ih =>
    rw [List.flatMap_cons]
    cases item with
    | status => simp [makeRequest, Item.steps, applyProgramResp]
    | resp id response =>
      simp only [makeRequest, Item.steps]
      split_ifs
      · simp [applyProgramResp]
      · exact ih cb
      match response with
      | none | some .describeResp | some .error => simp [Callback.call, applyProgramResp]
      | some (.programResp steps) =>
        simp only [Callback.call]
        match hr : applyProgramResp B steps cb with
        | (cb₁, .error e) => simp [applyProgramResp_error _ hr]
        | (cb₁, .ok true) => simpa [applyProgramResp_append _ hr] using ih cb₁
        | (cb₁, .ok false) => simp [applyProgramResp_append _ hr]

/-- What becomes of steps that do not fail. -/
theorem applyProgramResp_ok {steps : List (RespStep ω)} {more : Bool}
    (h : applyProgramResp B steps cb = (cb', .ok more)) :
    if more then
      cb'.txnStatus = cb.txnStatus ∧
        ∃ ops, steps = ops.map .build ∧ B.feed ops cb.builder = some cb'.builder
    else ∃ isAutocommit, Finished B steps cb.builder cb'.builder isAutocommit ∧
      cb'.txnStatus = if isAutocommit then .init else .txn := by
  induction steps generalizing cb with
  | nil =>
    cases h
    exact ⟨rfl, [], rfl, rfl⟩
  | cons step steps ih =>
    cases step with
    | unknown => cases h
    | finish lastFrameNo isAutocommit =>
      simp only [applyProgramResp] at h
      split at h
      · cases h
      · rename_i b hb
        cases h
        exact ⟨isAutocommit, ⟨[], lastFrameNo, steps, cb.builder, rfl, rfl, hb⟩, rfl⟩
    | build op =>
      simp only [applyProgramResp] at h
      split at h
      · cases h
      rename_i b hb
      have hrest := ih h
      split_ifs at hrest ⊢
      · obtain ⟨hstatus, ops, rfl, hfeed⟩ := hrest
        exact ⟨hstatus, op :: ops, rfl, by simpa [Builder.feed, hb] using hfeed⟩
      · obtain ⟨isAutocommit, ⟨ops, lastFrameNo, rest, b', rfl, hfeed, hfinish⟩, hstatus⟩ := hrest
        exact ⟨isAutocommit, ⟨op :: ops, lastFrameNo, rest, b', rfl,
          by simpa [Builder.feed, hb] using hfeed, hfinish⟩, hstatus⟩

theorem applyProgramResp_build (ops : List ω) {b : β} (h : B.feed ops cb.builder = some b) :
    applyProgramResp B (ops.map .build) cb = ({ cb with builder := b }, .ok true) := by
  induction ops generalizing cb with
  | nil =>
    cases h
    rfl
  | cons op ops ih =>
    obtain ⟨b', hb, h⟩ := Option.bind_eq_some_iff.1 h
    simp only [List.map_cons, applyProgramResp, hb]
    exact ih h

/-- **When a program that is reported as finished is**: exactly if what the stream has for the request
is not just steps that the builder takes. -/
theorem execute_right_iff (requestId : ℕ) (items : List (Item ω)) (builder : β) :
    (∀ builder' status newFrameNo,
        execute B requestId builder items = .ok (builder', status, newFrameNo) →
        ∃ isAutocommit, Finished B (items.flatMap (Item.steps requestId)) builder builder' isAutocommit ∧
          status = if isAutocommit then .init else .txn) ↔
      ∀ ops, items.flatMap (Item.steps requestId) = ops.map .build → B.feed ops builder = none := by
  constructor
  · intro h ops hops
    by_contra hsome
    obtain ⟨b, hb⟩ := Option.ne_none_iff_exists'.1 hsome
    have hrun : makeRequest B requestId items ⟨builder, .invalid, none⟩ =
        (⟨b, .invalid, none⟩, .ok ()) := by
      rw [makeRequest_ok_iff, hops]
      exact ⟨true, applyProgramResp_build ops hb⟩
    obtain ⟨isAutocommit, -, hstatus⟩ := h b .invalid none (by simp only [execute, hrun])
    cases isAutocommit <;> cases hstatus
  · intro h builder' status newFrameNo hrun
    simp only [execute] at hrun
    split at hrun
    · cases hrun
    rename_i cb hcb
    cases hrun
    obtain ⟨more, happly⟩ := (makeRequest_ok_iff ..).1 hcb
    have hok := applyProgramResp_ok happly
    cases more with
    | false => exact hok
    | true =>
      obtain ⟨-, ops, hops, hfeed⟩ := hok
      simp [h ops hops] at hfeed

/-- **A stream that is closed early** counts as the end of the program. -/
theorem closed_stream_ok :
    execute Conn.plainBuilder 0 () [.resp 0 (some (.programResp [.build ()]))] =
        .ok ((), .invalid, none) ∧
      ∀ isAutocommit, ¬ Finished Conn.plainBuilder [.build ()] () () isAutocommit := by
  refine ⟨rfl, ?_⟩
  rintro isAutocommit ⟨ops, lastFrameNo, rest, b, hsteps, -⟩
  cases ops <;> simp at hsteps

end SqlAnywhere.Server.WriteProxy
