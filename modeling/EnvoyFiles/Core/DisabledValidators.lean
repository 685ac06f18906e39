import EnvoyFiles.Core.HeaderSafety
import EnvoyFiles.Core.Revalidation

/-!
# Disabled validators

The conditional headers of a disabled validator are dropped, and its own header is not sent.
`If-Range` is not dropped: it is compared with both validators whatever the switches say.
-/

namespace EnvoyFiles

open Text Range Conditional

section Congruence

variable {crates : Crates} {facts : RequestFacts} {a b : FileMeta} {v w : Validators}

/-- Only the enabled validators are sent. -/
theorem pushValidatorHeaders_congr (hetag : facts.etagEnabled = true → v.etag = w.etag)
    (hdate : facts.lastModifiedEnabled = true → v.lastModifiedUnix = w.lastModifiedUnix) :
    pushValidatorHeaders crates facts v = pushValidatorHeaders crates facts w := by
  simp only [pushValidatorHeaders]
  cases hetagEnabled : facts.etagEnabled with
  | false =>
      cases hmodifiedEnabled : facts.lastModifiedEnabled with
      | false => rfl
      | true => simp [hdate hmodifiedEnabled]
  | true =>
      rw [hetag hetagEnabled]
      cases hmodifiedEnabled : facts.lastModifiedEnabled with
      | false => rfl
      | true => rw [hdate hmodifiedEnabled]

section Plans

variable (hpush : pushValidatorHeaders crates facts v = pushValidatorHeaders crates facts w)
  (hsize : a.size = b.size)

include hpush hsize

theorem planFull_congr : planFull crates facts a v = planFull crates facts b w := by
  simp only [planFull]
  rw [hpush, hsize]

theorem planSingle_congr (range : ByteRange) :
    planSingle crates facts a v range = planSingle crates facts b w range := by
  simp only [planSingle]
  rw [hpush, hsize]

theorem planMulti_congr (ranges : List ByteRange) :
    planMulti crates facts a v ranges = planMulti crates facts b w ranges := by
  simp only [planMulti]
  rw [hpush, hsize]

/-- Behind the conditional headers a plan depends on what it sends, on the size, and where a
range is selected on the verdict of `If-Range`. -/
theorem planProceed_congr
    (hdefined : (ifRangeOk crates facts v).isSome = (ifRangeOk crates facts w).isSome)
    (hverdict : ∀ rangeHeader, facts.rangeHeader = some rangeHeader →
      planRanges rangeHeader b.size facts.rangePolicy ≠ .full →
      ifRangeOk crates facts v = ifRangeOk crates facts w) :
    planProceed crates facts a v = planProceed crates facts b w := by
  have hfull := planFull_congr hpush hsize
  simp only [planProceed]
  cases hrange : facts.rangeHeader with
  | none => exact hfull
  | some rangeHeader =>
      dsimp only
      rw [hsize]
      cases hranges : planRanges rangeHeader b.size facts.rangePolicy with
      | full =>
          dsimp only
          rw [hfull]
          cases hv : ifRangeOk crates facts v with
          | none =>
              rw [hv, Option.isSome_none] at hdefined
              rw [Option.isSome_eq_false_iff.mp hdefined.symm |> Option.isNone_iff_eq_none.mp]
          | some ok =>
              rw [hv, Option.isSome_some] at hdefined
              obtain ⟨ok', hw⟩ := Option.isSome_iff_exists.mp hdefined.symm
              rw [hw]
              cases ok <;> cases ok' <;> rfl
      | unsatisfiable =>
          rw [hverdict rangeHeader hrange (by rw [hranges]; simp), hfull]
      | single range =>
          rw [hverdict rangeHeader hrange (by rw [hranges]; simp), hfull]
          dsimp only
          rw [planSingle_congr hpush hsize range]
      | multi ranges =>
          rw [hverdict rangeHeader hrange (by rw [hranges]; simp), hfull]
          dsimp only
          rw [planMulti_congr hpush hsize ranges]

end Plans

end Congruence

/-! ## Two versions of a file -/

/-- A range is selected, and `If-Range` honours it for one of the versions only. -/
structure Discerns (crates : Crates) (facts : RequestFacts) (a b : FileMeta) : Prop where
  proceeds : evaluateConditionals crates (effectiveConditionals facts) (validatorsOf a) =
    some .proceed
  ranged : ∃ rangeHeader, facts.rangeHeader = some rangeHeader ∧
    planRanges rangeHeader a.size facts.rangePolicy ≠ .full
  compared : ∃ ifRange, facts.conditionals.ifRange = some ifRange ∧
    ifRangeMatches crates ifRange (validatorsOf a) ≠ ifRangeMatches crates ifRange (validatorsOf b)

section Versions

variable {crates : Crates} {facts : RequestFacts} {a b : FileMeta} {plan : ResponsePlan}

theorem ifRangeOk_isSome_congr
    (hdated : (httpDateFrom a.mtimeUnix).isSome = (httpDateFrom b.mtimeUnix).isSome) :
    (ifRangeOk crates facts (validatorsOf a)).isSome =
      (ifRangeOk crates facts (validatorsOf b)).isSome := by
  simp only [ifRangeOk, ifRangeMatches]
  cases facts.conditionals.ifRange with
  | none => rfl
  | some ifRange =>
      cases hdecode : crates.decodeIfRange ifRange with
      | none => simp [hdecode]
      | some isModified =>
          simp only [hdecode, Option.isSome_map]
          exact hdated

/-- Versions that get the same validator headers get the same response, unless `If-Range`
tells them apart. -/
theorem planResponse_congr (hsize : a.size = b.size)
    (hdated : (httpDateFrom a.mtimeUnix).isSome = (httpDateFrom b.mtimeUnix).isSome)
    (hpush : pushValidatorHeaders crates facts (validatorsOf a) =
      pushValidatorHeaders crates facts (validatorsOf b))
    (heval : evaluateConditionals crates (effectiveConditionals facts) (validatorsOf a) =
      evaluateConditionals crates (effectiveConditionals facts) (validatorsOf b))
    (hsilent : ¬Discerns crates facts a b) :
    planResponse crates facts a = planResponse crates facts b := by
  rw [planResponse_eq, planResponse_eq, ← heval, hpush]
  cases hcondition : evaluateConditionals crates (effectiveConditionals facts)
      (validatorsOf a) with
  | none => rfl
  | some condition =>
      cases condition with
      | preconditionFailed => rfl
      | notModified => rfl
      | proceed =>
          have hproceed : planProceed crates facts a (validatorsOf a) =
              planProceed crates facts b (validatorsOf b) := by
            apply planProceed_congr hpush hsize (ifRangeOk_isSome_congr hdated)
            intro rangeHeader hrange hranges
            by_contra hne
            refine hsilent ⟨hcondition, ⟨rangeHeader, hrange, hsize ▸ hranges⟩, ?_⟩
            simp only [ifRangeOk] at hne
            cases hifRange : facts.conditionals.ifRange with
            | none =>
                rw [hifRange] at hne
                exact absurd rfl hne
            | some ifRange =>
                rw [hifRange] at hne
                exact ⟨ifRange, rfl, hne⟩
          exact hproceed

/-- An honoured range is answered in another way than a plain request. -/
theorem planProceed_honoured {rangeHeader : String} {v : Validators}
    (hrange : facts.rangeHeader = some rangeHeader)
    (hranges : planRanges rangeHeader a.size facts.rangePolicy ≠ .full)
    (hok : ifRangeOk crates facts v = some true)
    (hplan : planProceed crates facts a v = some plan) : plan.status ≠ 200 := by
  rw [planProceed] at hplan
  rw [hrange] at hplan
  dsimp only at hplan
  rw [hok] at hplan
  simp only [Option.bind_eq_bind, Option.bind_some, if_true] at hplan
  cases houtcome : planRanges rangeHeader a.size facts.rangePolicy with
  | unsatisfiable =>
      rw [houtcome] at hplan
      obtain ⟨text, -, hplan⟩ := Option.bind_eq_some_iff.mp hplan
      cases hplan
      exact (by decide : (416 : ℕ) ≠ 200)
  | single range =>
      rw [houtcome] at hplan
      rw [(planSingle_validators hplan).1]
      decide
  | multi ranges =>
      rw [houtcome] at hplan
      rw [(planMulti_validators hplan).1]
      decide
  | full => exact absurd houtcome hranges

theorem planProceed_ignored {rangeHeader : String} {v : Validators}
    (hrange : facts.rangeHeader = some rangeHeader) (hok : ifRangeOk crates facts v = some false) :
    planProceed crates facts a v = planFull crates facts a v := by
  rw [planProceed]
  rw [hrange]
  dsimp only
  rw [hok]
  rfl

theorem planProceed_ne {rangeHeader : String} (hcrates : crates.FormatsText)
    (hvalid : facts.ValidTexts) (hdated : (httpDateFrom b.mtimeUnix).isSome = true)
    (hrange : facts.rangeHeader = some rangeHeader)
    (hranges : planRanges rangeHeader a.size facts.rangePolicy ≠ .full)
    (hhonoured : ifRangeOk crates facts (validatorsOf a) = some true)
    (hignored : ifRangeOk crates facts (validatorsOf b) = some false) :
    planProceed crates facts a (validatorsOf a) ≠ planProceed crates facts b (validatorsOf b) := by
  intro hsame
  obtain ⟨plan, hplan⟩ := (@planFull_isSome_iff crates facts b (validatorsOf b)
    (pushValidatorHeaders_validatorsOf hcrates hdated)).mpr
      ⟨hvalid.contentType, hvalid.cacheControl⟩
  rw [planProceed_ignored hrange hignored, hplan] at hsame
  exact planProceed_honoured hrange hranges hhonoured hsame (planFull_validators hplan).1

/-- Versions that `If-Range` tells apart get different responses. -/
theorem planResponse_ne (hcrates : crates.FormatsText) (hvalid : facts.ValidTexts)
    (hsize : a.size = b.size) (hdatedA : (httpDateFrom a.mtimeUnix).isSome = true)
    (hdatedB : (httpDateFrom b.mtimeUnix).isSome = true)
    (heval : evaluateConditionals crates (effectiveConditionals facts) (validatorsOf a) =
      evaluateConditionals crates (effectiveConditionals facts) (validatorsOf b))
    (h : Discerns crates facts a b) :
    planResponse crates facts a ≠ planResponse crates facts b := by
  obtain ⟨rangeHeader, hrange, hranges⟩ := h.ranged
  obtain ⟨ifRange, hifRange, hcompared⟩ := h.compared
  obtain ⟨okA, hokA⟩ := @ifRangeOk_isSome crates facts (validatorsOf a) hdatedA
  obtain ⟨okB, hokB⟩ := @ifRangeOk_isSome crates facts (validatorsOf b) hdatedB
  have hmatches (fileMeta : FileMeta) : ifRangeOk crates facts (validatorsOf fileMeta) =
      ifRangeMatches crates ifRange (validatorsOf fileMeta) := by
    rw [ifRangeOk]
    rw [hifRange]
  have hne : okA ≠ okB := by
    intro hsame
    rw [← hmatches, ← hmatches, hokA, hokB, hsame] at hcompared
    exact hcompared rfl
  rw [planResponse_eq, planResponse_eq, ← heval, h.proceeds]
  cases okA with
  | true =>
      cases okB with
      | true => exact absurd rfl hne
      | false => exact planProceed_ne hcrates hvalid hdatedB hrange hranges hokA hokB
  | false =>
      cases okB with
      | true =>
          exact (planProceed_ne hcrates hvalid hdatedA hrange (hsize ▸ hranges) hokB hokA).symm
      | false => exact absurd rfl hne

/-! ## The switches -/

/-- Without etags the conditional headers see no more than the date. -/
theorem evaluateConditionals_dateOnly (hetag : facts.etagEnabled = false)
    (hdate : a.mtimeUnix = b.mtimeUnix) :
    evaluateConditionals crates (effectiveConditionals facts) (validatorsOf a) =
      evaluateConditionals crates (effectiveConditionals facts) (validatorsOf b) := by
  have hvalidators : (validatorsOf a).lastModifiedUnix = (validatorsOf b).lastModifiedUnix := hdate
  rw [evaluateConditionals, preconditionFails, isNotModified, effectiveConditionals]
  rw [hetag, hvalidators]
  rfl

theorem evaluateConditionals_none (hetag : facts.etagEnabled = false)
    (hmodified : facts.lastModifiedEnabled = false) (v : Validators) :
    evaluateConditionals crates (effectiveConditionals facts) v = some .proceed := by
  rw [evaluateConditionals, preconditionFails, isNotModified, effectiveConditionals]
  rw [hetag, hmodified]
  rfl

/-- A date that `If-Range` is compared with exists. -/
theorem Discerns.dated (h : Discerns crates facts a b) (hdate : a.mtimeUnix = b.mtimeUnix) :
    (httpDateFrom a.mtimeUnix).isSome = true := by
  obtain ⟨ifRange, -, hcompared⟩ := h.compared
  by_contra hnone
  rw [Bool.not_eq_true, Option.isSome_eq_false_iff, Option.isNone_iff_eq_none] at hnone
  have hnoneA : httpDateFrom (validatorsOf a).lastModifiedUnix = none := hnone
  have hnoneB : httpDateFrom (validatorsOf b).lastModifiedUnix = none := by
    change httpDateFrom b.mtimeUnix = none
    rw [← hdate]
    exact hnone
  simp only [ifRangeMatches] at hcompared
  rw [hnoneA, hnoneB] at hcompared
  cases hdecode : crates.decodeIfRange ifRange with
  | none => simp [hdecode] at hcompared
  | some isModified => simp [hdecode] at hcompared

end Versions

/-- Two versions of a file with different times. -/
structure Rewritten (a b : FileMeta) : Prop where
  size : a.size = b.size
  isDir : a.isDir = b.isDir

/-- Without etags the nanoseconds of a file show in no response but to a range whose
`If-Range` tells them apart; without dates neither does its modification time. -/
theorem disabled_validators_silent_iff {crates : Crates} (hcrates : crates.FormatsText) :
    (∀ facts a b, facts.etagEnabled = false → Rewritten a b → a.mtimeUnix = b.mtimeUnix →
      (¬Discerns crates facts a b → planResponse crates facts a = planResponse crates facts b) ∧
      (facts.ValidTexts →
        (planResponse crates facts a = planResponse crates facts b ↔
          ¬Discerns crates facts a b))) ∧
    (∀ facts a b, facts.etagEnabled = false → facts.lastModifiedEnabled = false →
      Rewritten a b → (httpDateFrom a.mtimeUnix).isSome = true →
      (httpDateFrom b.mtimeUnix).isSome = true →
      (¬Discerns crates facts a b → planResponse crates facts a = planResponse crates facts b) ∧
      (facts.ValidTexts →
        (planResponse crates facts a = planResponse crates facts b ↔
          ¬Discerns crates facts a b))) := by
  constructor
  · intro facts a b hetag hrewritten hdate
    have heval := @evaluateConditionals_dateOnly crates facts a b hetag hdate
    have hdated : (httpDateFrom a.mtimeUnix).isSome = (httpDateFrom b.mtimeUnix).isSome := by
      rw [hdate]
    have hpush : pushValidatorHeaders crates facts (validatorsOf a) =
        pushValidatorHeaders crates facts (validatorsOf b) := by
      refine pushValidatorHeaders_congr ?_ fun _ => hdate
      intro henabled
      nomatch hetag.symm.trans henabled
    have hsame (hsilent : ¬Discerns crates facts a b) :=
      planResponse_congr hrewritten.size hdated hpush heval hsilent
    refine ⟨hsame, fun hvalid => ⟨?_, hsame⟩⟩
    intro hequal hdiscerns
    have hdatedA := hdiscerns.dated hdate
    exact planResponse_ne hcrates hvalid hrewritten.size hdatedA (hdated ▸ hdatedA) heval
      hdiscerns hequal
  · intro facts a b hetag hmodified hrewritten hdatedA hdatedB
    have heval : evaluateConditionals crates (effectiveConditionals facts) (validatorsOf a) =
        evaluateConditionals crates (effectiveConditionals facts) (validatorsOf b) := by
      rw [evaluateConditionals_none hetag hmodified, evaluateConditionals_none hetag hmodified]
    have hpush : pushValidatorHeaders crates facts (validatorsOf a) =
        pushValidatorHeaders crates facts (validatorsOf b) := by
      refine pushValidatorHeaders_congr ?_ ?_
      · intro henabled
        nomatch hetag.symm.trans henabled
      · intro henabled
        nomatch hmodified.symm.trans henabled
    have hsame (hsilent : ¬Discerns crates facts a b) :=
      planResponse_congr hrewritten.size (hdatedA.trans hdatedB.symm) hpush heval hsilent
    refine ⟨hsame, fun hvalid => ⟨?_, hsame⟩⟩
    intro hequal hdiscerns
    exact planResponse_ne hcrates hvalid hrewritten.size hdatedA hdatedB heval hdiscerns hequal

/-- A request for the start of a file, with neither validator enabled. -/
def unvalidatedFacts (ifRange : Option String) : RequestFacts :=
  { revalidatedFacts with
    etagEnabled := false
    lastModifiedEnabled := false
    conditionals := { noConditionals with ifRange } }

theorem unvalidatedFacts_validTexts (ifRange : Option String) :
    (unvalidatedFacts ifRange).ValidTexts :=
  ⟨(by decide : Printable "envoyfilesboundary"), (by decide : ValidHeaderText "text/plain"), nofun⟩

theorem Crates.epoch_formatsText : Crates.epoch.FormatsText where
  date unix _ := Crates.epoch_readsValidators.dateText unix
  mime _ _ := nofun

/-- Without `If-Range` the start of the file is the same whenever it was written. -/
theorem disabled_validators_silent_iff_start :
    planResponse Crates.epoch (unvalidatedFacts none) ⟨5, 0, 7, false⟩ =
      planResponse Crates.epoch (unvalidatedFacts none) ⟨5, 1, 8, false⟩ := by
  refine (((disabled_validators_silent_iff Crates.epoch_formatsText).2 (unvalidatedFacts none)
    ⟨5, 0, 7, false⟩ ⟨5, 1, 8, false⟩ rfl rfl ⟨rfl, rfl⟩ rfl rfl).2
      (unvalidatedFacts_validTexts none)).mpr ?_
  intro hdiscerns
  obtain ⟨ifRange, hifRange, -⟩ := hdiscerns.compared
  nomatch hifRange

/-- The entity tag that the server never sent selects the range of its own version only. -/
theorem disabled_etag_discerns :
    (unvalidatedFacts (some "\"5-0.7\"")).etagEnabled = false ∧
      (unvalidatedFacts (some "\"5-0.7\"")).lastModifiedEnabled = false ∧
      Rewritten ⟨5, 0, 7, false⟩ ⟨5, 0, 8, false⟩ ∧
      (planResponse Crates.epoch (unvalidatedFacts (some "\"5-0.7\"")) ⟨5, 0, 7, false⟩).map
        ResponsePlan.status = some 206 ∧
      (planResponse Crates.epoch (unvalidatedFacts (some "\"5-0.7\"")) ⟨5, 0, 8, false⟩).map
        ResponsePlan.status = some 200 := by
  refine ⟨rfl, rfl, ⟨rfl, rfl⟩, ?_, ?_⟩
  · decide
  · decide

end EnvoyFiles
