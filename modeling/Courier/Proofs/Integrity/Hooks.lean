import Courier.Integrity.Interceptor
import Courier.Proofs.Http.Headers
import Courier.Proofs.Integrity.Splitter

/-! # What the integrity hooks do to a download

On the way out the hook asks for a trailing checksum and notes that it did; on the way back it
parts the checksum from a body that is marked, and declares the length of the payload.
-/

namespace Courier

namespace Attributes

variable {β γ : Type}

theorem lookup_erase_of_ne (a : Attributes) {name other : String} (h : name ≠ other) :
    (a.erase other).lookup name = a.lookup name := by
  unfold erase lookup
  induction a.entries with
  | nil => rfl
  | cons e es ih =>
    obtain ⟨m, v⟩ := e
    by_cases hm : m = other
    · have hb : (name == m) = false := beq_false_of_ne (hm ▸ h)
      simpa [hm, List.lookup_cons, hm ▸ hb] using ih
    · rw [List.filter_cons_of_pos (by simpa using hm), List.lookup_cons, List.lookup_cons, ih]

@[simp]
theorem lookup_erase (a : Attributes) (name : String) : (a.erase name).lookup name = none := by
  refine List.lookup_eq_none_iff.mpr fun e he => ?_
  have hne : e.1 ≠ name := by simpa using (List.mem_filter.mp he).2
  exact bne_iff_ne.mpr hne.symm

@[simp]
theorem lookup_put (a : Attributes) (k : AttributeKey β) (value : β) :
    (a.put k value).lookup k.name = some (k.wrap value) := by
  simp [put, lookup]

theorem lookup_put_of_ne (a : Attributes) (k : AttributeKey β) (value : β) {name : String}
    (h : name ≠ k.name) : (a.put k value).lookup name = a.lookup name := by
  have hb : (name == k.name) = false := beq_false_of_ne h
  rw [← a.lookup_erase_of_ne h]
  simp [put, lookup, List.lookup_cons, hb]

theorem get?_congr {a b : Attributes} {k : AttributeKey β} (h : a.lookup k.name = b.lookup k.name) :
    a.get? k = b.get? k :=
  congrArg (·.bind k.unwrap?) h

theorem get?_put_of_ne (a : Attributes) (k : AttributeKey β) (k' : AttributeKey γ) (value : γ)
    (h : k.name ≠ k'.name) : (a.put k' value).get? k = a.get? k :=
  get?_congr (a.lookup_put_of_ne k' value h)

theorem get?_remove_of_ne (a : Attributes) (k : AttributeKey β) (k' : AttributeKey γ)
    (h : k.name ≠ k'.name) : (a.remove k').2.get? k = a.get? k :=
  get?_congr (a.lookup_erase_of_ne h)

end Attributes

namespace Integrity

variable {ξ : Type} {settings : Settings}

theorem effective_of_kind {a : Attributes} {kind : OperationKind}
    (h : a.get? .operationKind = some kind) :
    effective settings a = ((a.get? .settings).getD settings, kind) := by
  simp [effective, h]

theorem get?_forget {β : Type} (a : Attributes) (k : AttributeKey β)
    (ht : k.name ≠ AttributeKey.trailingRequested.name)
    (hu : k.name ≠ AttributeKey.uploadDigest.name) : (forget a).get? k = a.get? k := by
  unfold forget
  rw [Attributes.get?_remove_of_ne _ _ _ hu, Attributes.get?_remove_of_ne _ _ _ ht]

/-- The attributes of a download that is checked on the side of the client. -/
structure ChecksDownload (settings : Settings) (a : Attributes) : Prop where
  kind : a.get? .operationKind = some .download
  clientSide : ((a.get? .settings).getD settings).clientSide = true

/-- Headers under which a download may be checked. -/
structure Checkable (request : Headers) : Prop where
  range : request.contains Headers.range = false
  customerKey : request.contains customerKey = false

theorem ChecksDownload.congr {a b : Attributes} (h : ChecksDownload settings a)
    (hk : b.get? .operationKind = a.get? .operationKind)
    (hs : b.get? .settings = a.get? .settings) : ChecksDownload settings b :=
  ⟨hk.trans h.kind, by rw [hs]; exact h.clientSide⟩

theorem ChecksDownload.forget {a : Attributes} (h : ChecksDownload settings a) :
    ChecksDownload settings (forget a) :=
  h.congr (get?_forget _ _ (by decide) (by decide)) (get?_forget _ _ (by decide) (by decide))

theorem ChecksDownload.put {a : Attributes} (h : ChecksDownload settings a) :
    ChecksDownload settings (a.put .trailingRequested true) :=
  h.congr (Attributes.get?_put_of_ne _ _ _ _ (by decide))
    (Attributes.get?_put_of_ne _ _ _ _ (by decide))

theorem onRequest_download {r : Request} {state : HookState ξ}
    (h : ChecksDownload settings state.attributes) (hr : Checkable r.headers) :
    onRequest settings r state =
      (.ok { r with headers := r.headers.insert trailingRequest appendMd5 },
        { state with
          attributes := (Integrity.forget state.attributes).put .trailingRequested true }) := by
  have hskip : skipsClientRequest ((state.attributes.get? .settings).getD settings) .download
      r.headers = false := by
    simp [skipsClientRequest, h.clientSide, hr.range, hr.customerKey]
  simp [onRequest, effective_of_kind h.kind, hskip, skipsServer, askTrailing]

theorem state_onResponse (settings : Settings) (r : Response) (state : HookState ξ) :
    (onResponse settings r state).2 = state := by
  unfold onResponse
  rcases effective settings state.attributes with ⟨settings, kind⟩
  dsimp only
  split
  · rfl
  · cases kind with
    | download => dsimp only; split <;> rfl
    | _ => rfl

theorem counts_onRequest (settings : Settings) (r : Request) (s : HookState ξ) :
    (onRequest settings r s).2.cells.counts = s.cells.counts := by
  unfold onRequest
  rcases effective settings s.attributes with ⟨settings, kind⟩
  dsimp only
  split
  · rfl
  · cases kind with
    | upload =>
      dsimp only [noteUpload]
      split <;> rfl
    | _ => rfl

/-- The response is one that may carry its checksum at the end of the body. -/
def isMarked (head : ResponseHead) : Bool :=
  head.isSuccess && head.headers.firstMatches trailingMarker appendMd5

theorem onResponse_download {r : Response} {state : HookState ξ}
    (h : ChecksDownload settings state.attributes)
    (ht : state.attributes.get? .trailingRequested = some true) (hm : isMarked r.head = true) :
    onResponse settings r state = (splitTrailing r, state) := by
  rw [isMarked, Bool.and_eq_true] at hm
  have hskip : skipsClientResponse ((state.attributes.get? .settings).getD settings) .download
      r.head.headers = false := by
    simp [skipsClientResponse, h.clientSide, hm.2]
  simp [onResponse, effective_of_kind h.kind, hskip, hm.1, ht]

theorem splitTrailing_cases {r r' : Response} (h : splitTrailing r = .ok r') :
    ∃ n s, r.head.headers.declaredLength? = some n ∧ Trailing.Splitter.ofLength? n = .ok s ∧
      r'.head.headers.all Headers.contentLength = [toString s.payloadLength] ∧
      r'.body = (r.body.withFilter (.trailing s)).withLength (some s.payloadLength) := by
  unfold splitTrailing at h
  cases hn : r.head.headers.declaredLength? with
  | none => simp [hn] at h
  | some n =>
    simp only [hn] at h
    cases hs : Trailing.Splitter.ofLength? n with
    | error f => simp [hs] at h
    | ok s =>
      simp only [hs, Except.ok.injEq] at h
      subst h
      exact ⟨n, s, rfl, hs, Headers.all_insert _ _ _, rfl⟩

end Integrity

theorem Interceptor.runHooks_single {ξ α : Type} (f : Hook ξ α) : runHooks [f] = f := by
  funext m s
  unfold runHooks
  rcases f m s with ⟨_ | _, _⟩ <;> rfl

namespace InterceptorChain

variable {ξ : Type} {chain : InterceptorChain ξ} {i : Interceptor ξ}

theorem onRequest_single (h : chain.interceptors = [i]) : chain.onRequest = i.onRequest := by
  unfold onRequest
  rw [h]
  exact Interceptor.runHooks_single i.onRequest

theorem onResponse_single (h : chain.interceptors = [i]) : chain.onResponse = i.onResponse := by
  unfold onResponse
  rw [h]
  exact Interceptor.runHooks_single i.onResponse

theorem onResponse_integrity {settings : Integrity.Settings} {r : Response}
    {result : Except Error Response} {state state' : HookState ξ}
    (h : chain.interceptors = [Integrity.interceptor settings])
    (hk : chain.onResponse r state = (result, state')) :
    state' = state ∧ Integrity.onResponse settings r state = (result, state) := by
  rw [onResponse_single h] at hk
  change Integrity.onResponse settings r state = _ at hk
  have hs := Integrity.state_onResponse settings r state
  rw [hk] at hs
  subst hs
  exact ⟨rfl, hk⟩

end InterceptorChain

end Courier
