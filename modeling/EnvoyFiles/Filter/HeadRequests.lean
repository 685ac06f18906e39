import EnvoyFiles.Filter.AdvertisedRanges
import EnvoyFiles.Filter.Truncation

/-!
# `HEAD` requests

A `HEAD` request is looked up like the `GET` request with the same other headers, and its
answer is that of the `GET` with the stream ended by the headers: no byte of a file is read
for it, and none is sent.
-/

namespace EnvoyFiles.Filter

open Text

/-! ## The request with the other method -/

/-- The same request with the method `HEAD` in place of `GET`. -/
def AsHead (headers headHeaders : List (Bytes × Bytes)) : Prop :=
  ∃ before after, (∀ header ∈ before, header.1 ≠ asBytes ":method") ∧
    headers = before ++ (asBytes ":method", asBytes "GET") :: after ∧
    headHeaders = before ++ (asBytes ":method", asBytes "HEAD") :: after

/-- The collected headers with another method. -/
def RawRequestHeaders.withMethod (raw : RawRequestHeaders) (method : Bytes) :
    RawRequestHeaders :=
  { raw with method := some method }

/-- The request as one for the headers only. -/
def RequestData.forHead (data : RequestData) : RequestData :=
  { data with methodHead := true }

/-- The answer without the body behind it. -/
def Call.forHead : Call → Call
  | .sendResponseHeaders replyHeaders _ => .sendResponseHeaders replyHeaders true
  | call => call

def Response.forHead (response : Response) : Response :=
  ⟨response.start.forHead, []⟩

section Collecting

variable {raw : RawRequestHeaders} {headers headHeaders : List (Bytes × Bytes)}
  {method : Bytes}

/-- Once there is a method, a header fills its slot whatever the method is. -/
theorem collectOne_withMethod (raw : RawRequestHeaders) (header : Bytes × Bytes) :
    ∃ raw' : RawRequestHeaders, ∀ method,
      (raw.withMethod method).collectOne header = raw'.withMethod method := by
  refine ⟨(raw.withMethod []).collectOne header, fun method => ?_⟩
  obtain ⟨key, value⟩ := header
  simp only [RawRequestHeaders.collectOne, RawRequestHeaders.withMethod]
  repeat' split
  all_goals rfl

theorem foldl_collectOne_withMethod (raw : RawRequestHeaders) (headers : List (Bytes × Bytes)) :
    ∃ raw' : RawRequestHeaders, ∀ method,
      headers.foldl RawRequestHeaders.collectOne (raw.withMethod method) =
        raw'.withMethod method := by
  induction headers generalizing raw with
  | nil => exact ⟨raw, fun _ => rfl⟩
  | cons header rest ih =>
      obtain ⟨first, hfirst⟩ := collectOne_withMethod raw header
      obtain ⟨last, hlast⟩ := ih first
      refine ⟨last, fun method => ?_⟩
      rw [List.foldl_cons, hfirst, hlast]

/-- Headers that are no method leave the slot empty. -/
theorem method_of_foldl (hraw : raw.method = none)
    (hheaders : ∀ header ∈ headers, header.1 ≠ asBytes ":method") :
    (headers.foldl RawRequestHeaders.collectOne raw).method = none := by
  induction headers generalizing raw with
  | nil => exact hraw
  | cons header rest ih =>
      refine ih ?_ fun other hother => hheaders other (List.mem_cons_of_mem _ hother)
      have hkey := hheaders header List.mem_cons_self
      rw [RawRequestHeaders.collectOne]
      rw [if_neg hkey]
      repeat' split
      all_goals exact hraw

theorem collectOne_fillsMethod (hraw : raw.method = none)
    (hmethod : methodFromBytes method = some method) :
    raw.collectOne (asBytes ":method", method) = raw.withMethod method := by
  simp only [RawRequestHeaders.collectOne]
  rw [if_pos trivial, hraw, hmethod]
  rfl

/-- The collected headers differ in the method only. -/
theorem collect_asHead (h : AsHead headers headHeaders) :
    (RawRequestHeaders.collect headers).method = some (asBytes "GET") ∧
      RawRequestHeaders.collect headHeaders =
        (RawRequestHeaders.collect headers).withMethod (asBytes "HEAD") := by
  obtain ⟨before, after, hbefore, rfl, rfl⟩ := h
  have hnone : (before.foldl RawRequestHeaders.collectOne .default).method = none :=
    method_of_foldl rfl hbefore
  obtain ⟨raw, hrest⟩ := foldl_collectOne_withMethod
    (before.foldl RawRequestHeaders.collectOne .default) after
  have hcollect (method : Bytes) (hmethod : methodFromBytes method = some method) :
      RawRequestHeaders.collect (before ++ (asBytes ":method", method) :: after) =
        raw.withMethod method := by
    rw [RawRequestHeaders.collect]
    rw [List.foldl_append, List.foldl_cons, collectOne_fillsMethod hnone hmethod, hrest]
  rw [hcollect _ (by decide), hcollect _ (by decide)]
  exact ⟨rfl, rfl⟩

end Collecting

/-! ## The answer -/

section Answer

variable {crates : Crates} {cfg : Config} {store : Store} {data : RequestData} {query : Query}
  {outcome : Outcome} {response : Response} {headers headHeaders : List (Bytes × Bytes)}
  {s : State} {call : Call}

theorem walk_forHead (n : ℕ) (query : Query) :
    walk crates cfg store data.forHead n query = walk crates cfg store data n query := by
  induction n generalizing query with
  | zero => rfl
  | succ n ih =>
      have hleads : query.leads crates cfg store data.forHead =
          query.leads crates cfg store data := rfl
      rw [walk, walk, hleads]
      split
      · rfl
      · exact ih _
      · rfl

/-- A `HEAD` request finds what a `GET` request does. -/
theorem finds_forHead :
    Finds crates cfg store data.forHead query outcome ↔
      Finds crates cfg store data query outcome := by
  simp only [Finds, walk_forHead]

theorem refusal_asHead (h : AsHead headers headHeaders) :
    refusal cfg headHeaders = refusal cfg headers := by
  obtain ⟨hmethod, hcollect⟩ := collect_asHead h
  simp only [refusal]
  rw [hcollect, hmethod]
  rfl

theorem starts_asHead (hhead : AsHead headers headHeaders)
    (h : Starts crates cfg headers data query) :
    data.methodHead = false ∧ Starts crates cfg headHeaders data.forHead query := by
  obtain ⟨hmethod, hcollect⟩ := collect_asHead hhead
  obtain ⟨hrefusal, candidate, rest, haccepts, hquery⟩ := h
  obtain ⟨rawPath, relative, trailingSlash, hmounted, hresolve, rfl, hcandidates⟩ := haccepts
  refine ⟨?_, (refusal_asHead hhead).trans hrefusal, candidate, rest, ?_, hquery⟩
  · rw [requestData]
    rw [hmethod]
    have hmethods : asBytes "GET" ≠ asBytes "HEAD" := by decide
    exact decide_eq_false fun h => hmethods (Option.some.inj h)
  · rw [Accepts, hcollect]
    refine ⟨rawPath, relative, trailingSlash, hmounted, hresolve, ?_, hcandidates⟩
    simp [requestData, RequestData.forHead, RawRequestHeaders.withMethod]

/-- What is found is answered with the same headers, and without its body. -/
theorem response_forHead (hget : data.methodHead = false) :
    outcome.response crates cfg data.forHead =
      (outcome.response crates cfg data).map Response.forHead := by
  cases outcome with
  | reply status replyHeaders => rfl
  | page entries =>
      have hpage : listingPage crates cfg data.forHead entries =
          listingPage crates cfg data entries := rfl
      rw [Outcome.response, Outcome.response]
      rw [hpage, Option.map_map]
      rfl
  | file opened ctx =>
      have hfacts (methodHead : Bool) : requestFacts cfg { data with methodHead } opened.stat ctx =
          (requestFacts cfg data opened.stat ctx).withMethod methodHead := rfl
      have hfactsGet : requestFacts cfg data opened.stat ctx =
          (requestFacts cfg data opened.stat ctx).withMethod false := by
        rw [← hfacts, ← hget]
      rw [Outcome.response, Outcome.response]
      rw [RequestData.forHead, hfacts, planResponse_head, ← hfactsGet, Option.map_map,
        Option.map_map]
      rfl

/-- A `HEAD` request has the response to the `GET` request, without its body. -/
theorem replies_asHead (hhead : AsHead headers headHeaders)
    (h : Replies crates cfg store headers response) :
    Replies crates cfg store headHeaders response.forHead := by
  cases h with
  | @refused reaction call hrefusal hanswer =>
      obtain ⟨status, replyHeaders, rfl, -⟩ := refusal_reply hrefusal
      cases hanswer
      exact .refused ((refusal_asHead hhead).trans hrefusal) rfl
  | found hstarts hfinds hresponse =>
      obtain ⟨hget, hstarts⟩ := starts_asHead hhead hstarts
      refine .found hstarts (finds_forHead.mpr hfinds) ?_
      rw [response_forHead hget, hresponse]
      rfl

/-- A response that has ended stays so. -/
theorem stageRun_stays {calls : List Call} {stage stage' : Stage}
    (h : StageRun stage calls stage') (hended : stage = .ended) : stage' = .ended := by
  induction h with
  | nil => exact hended
  | cons _ hnext _ ih =>
      subst hended
      exact ih (next_ended hnext).1

theorem phase_done_of_stage (h : s.phase.stage = .ended) : s.phase = .done := by
  cases hphase : s.phase with
  | done => rfl
  | _ =>
      rw [hphase] at h
      cases h

/-- Every answer is one that ends the stream once its body is left out. -/
theorem Call.forHead_endsStream (h : call.startsResponse = true) :
    call.forHead.endsStream = true := by
  cases call with
  | sendResponse status replyHeaders body => rfl
  | sendResponseHeaders replyHeaders endStream => rfl
  | _ => cases h

/-- Where the answer ends the stream, no data is sent and no read is submitted. -/
theorem ended_by_answer (hobeys : Obeys s) (hanswer : s.answer = some call)
    (hends : call.endsStream = true) :
    s.phase = .done ∧ dataSends s.trace = [] ∧ submittedReads s.trace = [] := by
  obtain ⟨hstarts, before, after, htrace, -⟩ := List.find?_eq_some_iff_append.mp hanswer
  rw [Obeys] at hobeys
  rw [htrace] at hobeys ⊢
  obtain ⟨u, v, hbefore, -, hnext, hafter⟩ := hobeys.split_middle
  obtain ⟨rfl, -⟩ := next_startsResponse hstarts hnext
  obtain ⟨-, rfl⟩ := next_endsStream hends hnext
  have hhooks := stageRun_ended hafter
  have hbehind : ∀ other ∈ call :: after, other.dataSend = none ∧ other.readSeq = none := by
    intro other hother
    rcases List.mem_cons.mp hother with rfl | hlater
    · cases other with
      | sendResponse status replyHeaders body => exact ⟨rfl, rfl⟩
      | sendResponseHeaders replyHeaders endStream => exact ⟨rfl, rfl⟩
      | _ => cases hstarts
    · obtain ⟨hook, rfl⟩ := hhooks other hlater
      exact ⟨rfl, rfl⟩
  refine ⟨phase_done_of_stage (stageRun_stays hafter rfl), ?_, ?_⟩
  · rw [dataSends_append, dataSends_of_waiting hbefore, List.nil_append]
    exact List.filterMap_eq_nil_iff.mpr fun other hother => (hbehind other hother).1
  · have hreads := submittedReads_of_waiting hbefore
    rw [submittedReads] at hreads ⊢
    rw [List.filterMap_append, hreads, List.nil_append]
    exact List.filterMap_eq_nil_iff.mpr fun other hother => (hbehind other hother).2

end Answer

end EnvoyFiles.Filter
