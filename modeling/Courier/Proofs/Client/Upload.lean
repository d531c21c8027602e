import Courier.Proofs.Client.History
import Courier.Proofs.Client.Run
import Courier.Proofs.Integrity.Uploading
import Courier.Proofs.Wire.Sending
import Courier.Rehearsal.Stage

/-! # Uploads are verified

With the integrity hooks alone in the chain, an upload that was answered with a digest for its
entity tag gives an outcome only if that is the digest of the body which the last attempt sent.
-/

namespace Courier

open Integrity

variable {ω κ ξ η α : Type}

/-- A connection that says that a request has gone has read its body to the end. -/
def Network.ReadsBodies (net : Network ω κ) : Prop :=
  ∀ {head : RequestHead} {s : ByteStream} {connection connection' : κ} {outside outside' : ω}
    {c c' : Cells},
    net.send head (some s) connection outside c = ⟨.ok (), connection', outside', c'⟩ →
      ∃ chunks, s.readAll c = (chunks, .finished, c')

theorem Wire.Connection.readsBodies {net : Network ω Wire.Connection}
    (hnet : ∀ head s (connection : Wire.Connection) outside c,
      let sent := net.send head (some s) connection outside c
      sent.result = .ok () →
        (connection.sendRequest head (some s) c).outcome = some (.ok ()) ∧
          sent.cells = (connection.sendRequest head (some s) c).cells) : net.ReadsBodies := by
  intro head s connection _ outside _ c c' hs
  obtain ⟨ho, hc⟩ := hnet head s connection outside c (by rw [hs])
  have hc' : c' = (connection.sendRequest head (some s) c).cells :=
    (congrArg Network.Sent.cells hs).symm.trans hc
  obtain ⟨chunks, hr⟩ := sendRequest_reads ho
  exact ⟨chunks, hc' ▸ hr⟩

/-! ## What an attempt has sent -/

/-- The bodies that went out, and the heads that came in answer. -/
structure Dealings where
  bodies : List (Option ByteStream)
  heads : List ResponseHead

namespace Dealings

def none : Dealings := ⟨[], []⟩

def after (x : Dealings) : Event → Dealings
  | .told .prepare => none
  | .sent _ body => { x with bodies := x.bodies ++ [body] }
  | .answered head => { x with heads := x.heads ++ [head] }
  | _ => x

/-- One body went out, and read to its end it gives these bytes. -/
def Carries (x : Dealings) (bytes : Bytes) : Prop :=
  ∃ s chunks, x.bodies = [some s] ∧ s.Yields chunks ∧ chunks.flatten = bytes

/-- What went out came from the body of the request, and the digest that the tag of a successful
answer spells is its digest. -/
def Vouched (x : Dealings) (b : RequestBody) : Prop :=
  ∀ head ∈ x.heads, head.isSuccess = true → ∀ tag,
    head.headers.first? Headers.entityTag = some tag → EntityTag.IsDigest tag →
      ∃ bytes, x.Carries bytes ∧ b.Gives bytes ∧
        EntityTag.ofHex? (EntityTag.bare tag) = some (md5 bytes)

end Dealings

def dealings (t : List Event) : Dealings :=
  t.foldl Dealings.after .none

@[simp] theorem dealings_concat (t : List Event) (e : Event) :
    dealings (t ++ [e]) = (dealings t).after e := by
  simp [dealings]

theorem Dealings.after_of_isRemark (x : Dealings) {e : Event} (h : e.isRemark = true) :
    x.after e = x := by
  cases e with
  | told callback => cases callback <;> first | rfl | cases h
  | sent _ _ => cases h
  | answered _ => cases h
  | _ => rfl

namespace Execution

variable {x y : Execution κ η α}

theorem Continues.dealings_eq (hx : Continues Event.isRemark x y) :
    dealings y.history = dealings x.history :=
  hx.foldl_eq (fun s _ => Dealings.after_of_isRemark s) Dealings.none

@[simp] theorem dealings_note (x : Execution κ η α) (e : Event) :
    dealings (x.note e).history = (dealings x.history).after e :=
  dealings_concat _ e

@[simp] theorem dealings_moveTo (x : Execution κ η α) (next : ExecutionState) :
    dealings (x.moveTo next).history = dealings x.history :=
  (continues_moveTo x next).dealings_eq

/-! ## How an upload stands -/

variable {settings : Settings} {q : Request} {c c' : Cells} {P Q : Slot → Prop} {e : Dealings}

/-- The request is the one that was made, and what goes up with it is to be checked. -/
structure Uploading (settings : Settings) (q : Request) (x : Execution κ η α) : Prop where
  request : x.request = q
  checks : ChecksUpload settings x.attributes

theorem Uploading.congr (hx : Uploading settings q x) (hr : y.request = x.request)
    (ha : y.attributes = x.attributes) : Uploading settings q y :=
  ⟨hr.trans hx.request, ha ▸ hx.checks⟩

/-- An attempt has come so far, and of the slot that it noted it is known how it stands. -/
structure Noting (settings : Settings) (q : Request) (e : Dealings) (P : Slot → Prop)
    (x : Execution κ η α) : Prop extends Uploading settings q x where
  dealings : dealings x.history = e
  slot : ∃ slot, x.attributes.get? .uploadDigest = some slot ∧ P slot

theorem Noting.congr (hx : Noting settings q e P x) (hr : y.request = x.request)
    (ha : y.attributes = x.attributes) (he : Courier.dealings y.history = Courier.dealings x.history)
    (hP : ∀ slot, x.attributes.get? .uploadDigest = some slot → P slot → Q slot) :
    Noting settings q e Q y := by
  obtain ⟨slot, hn, hs⟩ := hx.slot
  exact ⟨hx.toUploading.congr hr ha, he.trans hx.dealings, slot, ha ▸ hn, hP slot hn hs⟩

/-- How an upload stands in each phase. Nothing is said of one that has failed. -/
def Uploads (settings : Settings) (q : Request) (c : Cells) (x : Execution κ η α) :
    Phase κ α → Prop
  | .ready => Uploading settings q x
  | .prepared => Uploading settings q x ∧ dealings x.history = .none
  | .acquiring request _ =>
    Noting settings q .none (fun slot => Noted slot c q.body request.body) x
  | .sending _ body _ _ => ∃ s, body = some s ∧
    Noting settings q ⟨[some s], []⟩ (fun slot => Primed slot c q.body s) x
  | .awaiting _ _ => ∃ s chunks, s.Yields chunks ∧ q.body.Gives chunks.flatten ∧
    Noting settings q ⟨[some s], []⟩ (fun slot => c.digest? slot = some (md5 chunks.flatten)) x
  | .streaming _ => Uploading settings q x ∧ (dealings x.history).Vouched q.body
  | .waiting _ => Uploading settings q x
  | .finished (.ok _) => (dealings x.history).Vouched q.body
  | .finished (.error _) => True

theorem Uploads.uploading {p : Phase κ α} (hx : Uploads settings q c x p)
    (hp : p.isFinished = false) : Uploading settings q x := by
  cases p with
  | ready => exact hx
  | prepared => exact hx.1
  | acquiring _ _ => exact hx.toUploading
  | sending _ _ _ _ =>
    obtain ⟨_, _, hn⟩ := hx
    exact hn.toUploading
  | awaiting _ _ =>
    obtain ⟨_, _, _, _, hn⟩ := hx
    exact hn.toUploading
  | streaming _ => exact hx.1
  | waiting _ => exact hx
  | finished _ => cases hp

theorem Uploads.congr {p : Phase κ α} (hx : Uploads settings q c x p) (hr : y.request = x.request)
    (ha : y.attributes = x.attributes) (he : dealings y.history = dealings x.history)
    (hc : ∀ slot, x.attributes.get? .uploadDigest = some slot →
      slot.index < c.digests.length → c.Keeps slot c') :
    Uploads settings q c' y p := by
  cases p with
  | ready => exact Uploading.congr hx hr ha
  | prepared => exact ⟨hx.1.congr hr ha, he.trans hx.2⟩
  | acquiring _ _ => exact Noting.congr hx hr ha he fun slot hn hs => hs.keeps (hc slot hn hs.lt)
  | sending _ _ _ _ =>
    obtain ⟨s, hs, hn⟩ := hx
    exact ⟨s, hs, hn.congr hr ha he fun slot hn hs => hs.keeps (hc slot hn hs.lt)⟩
  | awaiting _ _ =>
    obtain ⟨s, chunks, hy, hg, hn⟩ := hx
    refine ⟨s, chunks, hy, hg, hn.congr hr ha he fun slot hn hs => ?_⟩
    exact (hc slot hn (Cells.lt_of_digest? hs)).digest?.trans hs
  | streaming _ => exact ⟨hx.1.congr hr ha, he ▸ hx.2⟩
  | waiting _ => exact Uploading.congr hx hr ha
  | finished outcome =>
    cases outcome with
    | ok _ =>
      unfold Uploads at hx ⊢
      rwa [he]
    | error _ => exact trivial

variable {cl : Client ω κ ξ} {h : Handler η α} {w : World ω κ ξ}
  {r : Execution κ η α × World ω κ ξ}

theorem uploads_fail (hx : Uploading settings q x) (e : Error) (w : World ω κ ξ) :
    Uploads settings q c (x.fail cl h e w).1 (x.fail cl h e w).1.phase := by
  have he := ends_fail (c := cl) (h := h) e x w
  rcases phase_fail (c := cl) (h := h) e x w with ⟨e', hp⟩ | ⟨due, hp⟩
  · rw [hp]
    exact trivial
  · rw [hp]
    exact hx.congr he.request he.attributes

theorem uploads_failWith (hx : Uploading settings q x) (l : Lease κ) (e : Error)
    (w : World ω κ ξ) :
    Uploads settings q c (x.failWith cl h l e w).1 (x.failWith cl h l e w).1.phase :=
  uploads_fail (x := (x.discard cl.network l w).1) ⟨hx.request, hx.checks⟩ e _

theorem uploads_succeed (hx : (dealings x.history).Vouched q.body) :
    Uploads settings q c (x.succeed h) (x.succeed h).phase := by
  have he : dealings (x.succeed h).history = dealings x.history := by
    simp [succeed, tellComplete, finish, Dealings.after]
  rw [phase_succeed]
  cases (h.complete x.handler).1 with
  | ok out =>
    unfold Uploads
    rwa [he]
  | error e => exact trivial

theorem uploads_settle (l : Lease κ) (result : Except Error BodyEnd) (w : World ω κ ξ)
    (hx : Uploading settings q x) (hv : (dealings x.history).Vouched q.body) :
    let r := x.settle cl h l result w
    Uploads settings q c r.1 r.1.phase := by
  unfold settle
  rcases result with e | _ | _
  · exact uploads_failWith hx _ _ _
  · dsimp only
    have he : dealings (x.note (.released l.id)).history = dealings x.history := by
      simp [Dealings.after]
    split
    · exact uploads_succeed (he ▸ hv)
    · exact uploads_fail (x := x.note (.released l.id)) (hx.congr rfl rfl) _ _
  · have he : dealings (x.note (.discarded l.id)).history = dealings x.history := by
      simp [Dealings.after]
    exact uploads_succeed (x := x.note (.discarded l.id)) (he ▸ hv)

/-! ## Steps -/

theorem noting_opened {result : Except Error Request} {hooks : HookState ξ}
    (hchain : cl.chain.interceptors = [interceptor settings]) (hu : Uploadable q.headers)
    (hb : q.body.isPresent = true) (hx : Uploading settings q x)
    (he : dealings x.history = .none)
    (hk : cl.chain.onRequest x.request (x.opened.hookState w) = (result, hooks)) :
    ∃ request, result = .ok request ∧
      Noting settings q .none (fun slot => Noted slot hooks.cells q.body request.body)
        (x.opened.afterHooks hooks) := by
  have hc : ChecksUpload settings (x.opened.hookState w).attributes := by
    have ha : (x.opened.hookState w).attributes = x.attributes := attributes_moveTo x _
    rw [ha]
    exact hx.checks
  have hr : (x.opened.afterHooks hooks).request = x.request := request_moveTo x _
  rw [InterceptorChain.onRequest_single hchain, hx.request] at hk
  obtain ⟨request, slot, cells, hon, hn⟩ := onRequest_upload hc hu hb
  cases hon.symm.trans hk
  refine ⟨request, rfl, ⟨hr.trans hx.request, hc.noted slot⟩, ?_, slot, ?_, hn⟩
  · exact (dealings_moveTo x _).trans he
  · exact Attributes.get?_put _ _ _

theorem uploads_transmitting {request : Request}
    (hx : Noting settings q .none (fun slot => Noted slot w.cells q.body request.body) x)
    (net : Network ω κ) (l : Lease κ) (pool : Pool κ) (outside : ω) :
    let y := x.transmitting net request l (w.withPool pool outside)
    Uploads settings q (request.body.openStream w.cells).2 y y.phase := by
  intro y
  have hr : y.request = x.request := request_moveTo (x.note (.leased l.id)) .transmitting
  have ha : y.attributes = x.attributes := attributes_moveTo (x.note (.leased l.id)) .transmitting
  obtain ⟨slot, hn, hs⟩ := hx.slot
  obtain ⟨s, ho, hp⟩ := hs.openStream
  refine ⟨s, ho, ⟨hx.toUploading.congr hr ha, ?_, slot, ha ▸ hn, hp⟩⟩
  have hc : (World.withPool w pool outside).cells = w.cells := rfl
  simp [y, transmitting, Dealings.after, hx.dealings, Dealings.none, hc, ho]

theorem uploads_awaitingHead {head : RequestHead} {s : ByteStream} {l : Lease κ}
    {connection : κ} {outside : ω}
    (hnet : cl.network.ReadsBodies)
    (hx : Noting settings q ⟨[some s], []⟩ (fun slot => Primed slot w.cells q.body s) x)
    (hs : cl.network.send head (some s) l.connection w.outside w.cells =
      ⟨.ok (), connection, outside, c⟩) (v : World ω κ ξ) :
    let y := x.awaitingHead cl.network { l with connection } v
    Uploads settings q c y y.phase := by
  intro y
  have hr : y.request = x.request := request_moveTo x _
  have ha : y.attributes = x.attributes := attributes_moveTo x _
  have he : dealings y.history = dealings x.history := dealings_moveTo x _
  obtain ⟨chunks, hread⟩ := hnet hs
  obtain ⟨slot, hn, hp⟩ := hx.slot
  obtain ⟨hg, hd⟩ := hp.readAll hread
  exact ⟨s, chunks, ByteStream.yields_of_readAll hread, hg,
    ⟨hx.toUploading.congr hr ha, he.trans hx.dealings, slot, ha ▸ hn, hd⟩⟩

theorem dealings_handed {head : ResponseHead} (net : Network ω κ) (l : Lease κ) (r : Response)
    (hooks : HookState ξ) (v : World ω κ ξ) :
    dealings (((x.note (.answered head)).afterHooks hooks).handed net h l r v).history =
      { dealings x.history with heads := (dealings x.history).heads ++ [head] } := by
  simp [handed, tellStream, tellHeaders, afterHooks, Dealings.after]

theorem uploads_handed {head : ResponseHead} {r : Response} {s : ByteStream} {chunks : List Bytes}
    (hy : s.Yields chunks) (hg : q.body.Gives chunks.flatten)
    (hx : Noting settings q ⟨[some s], []⟩
      (fun slot => w.cells.digest? slot = some (md5 chunks.flatten)) x)
    (hk : onResponse settings (responseOf head) (x.hookState w) = (.ok r, x.hookState w))
    (net : Network ω κ) (l : Lease κ) (v : World ω κ ξ) :
    let y := ((x.note (.answered head)).afterHooks (x.hookState w)).handed net h l r v
    Uploads settings q c y y.phase := by
  intro y
  have he : dealings y.history = ⟨[some s], [head]⟩ := by
    rw [dealings_handed, hx.dealings]
    rfl
  have hr : y.request = x.request := by
    simp [y, handed, tellStream, tellHeaders, note, afterHooks]
  have ha : y.attributes = x.attributes := by
    simp [y, handed, tellStream, tellHeaders, note, afterHooks, hookState]
  refine ⟨hx.toUploading.congr hr ha, ?_⟩
  rw [he]
  intro head' hm hs tag ht hd
  cases List.mem_singleton.mp hm
  obtain ⟨slot, hn, hslot⟩ := hx.slot
  obtain ⟨d, hspelt, hnamed⟩ := hd.exists_digest
  have hde : d = md5 chunks.flatten :=
    digest_of_onResponse (x.hookState w) hx.checks hn hs ht hnamed hslot
      (congrArg Prod.fst hk)
  exact ⟨_, ⟨s, chunks, rfl, hy, rfl⟩, hg, hde ▸ hspelt⟩

theorem Uploads.advance (hchain : cl.chain.interceptors = [interceptor settings])
    (hnet : cl.network.ReadsBodies) (hu : Uploadable q.headers) (hb : q.body.isPresent = true)
    (hx : Uploads settings q w.cells x x.phase) (ha : Advance cl h x w r) :
    Uploads settings q r.2.cells r.1 r.1.phase := by
  cases ha with
  | prepare hp =>
    rw [hp] at hx
    exact ⟨⟨hx.request, hx.checks⟩, dealings_note x (.told .prepare)⟩
  | refused hp hk =>
    rw [hp] at hx
    obtain ⟨_, hr, _⟩ := noting_opened hchain hu hb hx.1 hx.2 hk
    cases hr
  | unqueued hp hk _ =>
    rw [hp] at hx
    obtain ⟨_, _, hn⟩ := noting_opened hchain hu hb hx.1 hx.2 hk
    exact uploads_fail hn.toUploading _ _
  | queued hp hk _ =>
    rw [hp] at hx
    obtain ⟨_, hr, hn⟩ := noting_opened hchain hu hb hx.1 hx.2 hk
    cases hr
    exact hn.congr rfl rfl rfl fun _ _ hs => hs
  | acquiring hp _ _ =>
    rw [hp] at hx
    exact Noting.congr hx rfl rfl rfl fun _ _ hs => hs
  | unacquired hp _ _ =>
    rw [hp] at hx
    exact uploads_fail hx.toUploading _ _
  | leased hp _ _ =>
    rw [hp] at hx
    exact uploads_transmitting hx _ _ _ _
  | unsent hp _ _ =>
    rw [hp] at hx
    exact uploads_failWith (hx.uploading rfl) _ _ _
  | sent hp _ hs =>
    rw [hp] at hx
    obtain ⟨_, rfl, hn⟩ := hx
    exact uploads_awaitingHead hnet hn hs _
  | expired hp _ =>
    rw [hp] at hx
    exact uploads_failWith (hx.uploading rfl) _ _ _
  | headless hp _ _ =>
    rw [hp] at hx
    exact uploads_failWith (hx.uploading rfl) _ _ _
  | @withheld _ _ head _ _ _ hp _ _ _ =>
    rw [hp] at hx
    have hx' : Uploading settings q (x.note (.answered head)) :=
      (hx.uploading rfl).congr rfl rfl
    exact uploads_failWith hx' _ _ _
  | @rejected _ _ head _ _ _ hooks hp _ _ _ hk =>
    rw [hp] at hx
    obtain ⟨rfl, _⟩ := InterceptorChain.onResponse_integrity hchain hk
    have hx' : Uploading settings q ((x.note (.answered head)).afterHooks (x.hookState w)) :=
      (hx.uploading rfl).congr rfl rfl
    exact uploads_failWith hx' _ _ _
  | responded hp _ _ _ hk =>
    rw [hp] at hx
    obtain ⟨_, _, hy, hg, hn⟩ := hx
    obtain ⟨rfl, hr⟩ := InterceptorChain.onResponse_integrity hchain hk
    exact uploads_handed hy hg hn hr _ _ _
  | settled hp _ =>
    rw [hp] at hx
    exact uploads_settle _ _ _ hx.1 hx.2
  | @pumped s s' read _ hp _ _ _ =>
    rw [hp] at hx
    cases read with
    | none => exact ⟨hx.1.congr rfl rfl, hx.2⟩
    | some result =>
      refine ⟨hx.1.congr rfl rfl, ?_⟩
      have he : dealings (x.note (.read result)).history = dealings x.history := by
        simp [Dealings.after]
      exact he ▸ hx.2
  | handled hp _ _ _ =>
    rw [hp] at hx
    exact ⟨hx.1.congr rfl rfl, hx.2⟩
  | resume hp _ =>
    rw [hp] at hx
    exact Uploading.congr hx rfl rfl

/-! ## Runs -/

variable {R : Execution κ η α → World ω κ ξ → World ω κ ξ → Prop}

/-- Others may take slots of their own, but do not touch the one that an attempt has noted. -/
def LeavesDigest (R : Execution κ η α → World ω κ ξ → World ω κ ξ → Prop) : Prop :=
  ∀ {x w w'}, R x w w' → ∀ slot, x.attributes.get? .uploadDigest = some slot →
    slot.index < w.cells.digests.length → w.cells.Keeps slot w'.cells

theorem Uploads.withTurn (hx : Uploads settings q c x x.phase) (p : Party) :
    Uploads settings q c (x.withTurn p) (x.withTurn p).phase := by
  rcases x.withTurn_cases p with he | ⟨s, hp, he⟩
  · rwa [he]
  · rw [he]
    rw [hp] at hx
    exact ⟨hx.1.congr rfl rfl, hx.2⟩

theorem Uploads.move {o : Execution κ η α × World ω κ ξ}
    (hchain : cl.chain.interceptors = [interceptor settings])
    (hnet : cl.network.ReadsBodies) (hR : LeavesDigest R) (hu : Uploadable q.headers)
    (hb : q.body.isPresent = true) (hx : Uploads settings q o.2.cells o.1 o.1.phase)
    (hm : Move cl h R o r) : Uploads settings q r.2.cells r.1 r.1.phase := by
  cases hm with
  | @step x w _ hs =>
    obtain ⟨_, ⟨_, rfl⟩ | ⟨_, ha⟩⟩ := step_cases hs
    · obtain ⟨e, hp⟩ := phase_interrupt cl h x w
      rw [hp]
      exact trivial
    · exact hx.advance hchain hnet hu hb ha
  | turn x w p => exact hx.withTurn p
  | abort w reason _ => exact hx.congr rfl rfl rfl fun _ _ _ => rfl
  | kill w _ =>
    unfold kill
    split
    · exact hx
    · exact trivial
  | others hr => exact hx.congr rfl rfl rfl (hR hr)

theorem Moves.uploads {x₀ : Execution κ η α} {w₀ : World ω κ ξ}
    (hchain : cl.chain.interceptors = [interceptor settings])
    (hnet : cl.network.ReadsBodies) (hR : LeavesDigest R) (hx : x₀.phase = .ready)
    (ha : ChecksUpload settings x₀.attributes) (hu : Uploadable x₀.request.headers)
    (hb : x₀.request.body.isPresent = true) (hm : Moves cl h R (x₀, w₀) r) :
    Uploads settings x₀.request r.2.cells r.1 r.1.phase := by
  induction hm with
  | refl =>
    rw [hx]
    exact ⟨rfl, ha⟩
  | tail _ hs ih => exact ih.move hchain hnet hR hu hb hs

/-- Whatever the server and the policy do: when an upload that was to be checked succeeds, and its
last attempt was answered with success and with thirty-two hexadecimal digits for the first entity
tag, that attempt sent one body, all of what it gave came from the body of the request, in memory or
from a stream, and the digits spell the digest of exactly those bytes. -/
theorem upload_intact {x₀ x : Execution κ η α} {w₀ w : World ω κ ξ} {out : α}
    {head : ResponseHead} {tag : String}
    (hchain : cl.chain.interceptors = [interceptor settings]) (hnet : cl.network.ReadsBodies)
    (hR : LeavesDigest R) (hx : x₀.Unbegun) (ha : ChecksUpload settings x₀.attributes)
    (hu : Uploadable x₀.request.headers) (hb : x₀.request.body.isPresent = true)
    (hm : Moves cl h R (x₀, w₀) (x, w)) (ho : x.outcome? = some (.ok out))
    (hh : head ∈ (dealings x.history).heads) (hs : head.isSuccess = true)
    (ht : head.headers.first? Headers.entityTag = some tag) (hd : EntityTag.IsDigest tag) :
    ∃ bytes, (dealings x.history).Carries bytes ∧ x₀.request.body.Gives bytes ∧
      EntityTag.ofHex? (EntityTag.bare tag) = some (md5 bytes) := by
  have hv := hm.uploads hchain hnet hR hx.phase ha hu hb
  rw [phase_of_outcome? ho] at hv
  exact hv head hh hs tag ht hd

end Execution

/-! ## A run from a script -/

namespace Rehearsal

theorem network_readsBodies : network.ReadsBodies := by
  intro head s l l' stage stage' c c' hs
  have hb : Stage.bodyOf (some s) c =
      ((collected (s.readAll c).1 (s.readAll c).2.1).getD (.error Channel.droppedProducer),
        (s.readAll c).2.2) := rfl
  change Stage.send head (some s) l stage c = _ at hs
  unfold Stage.send at hs
  rw [hb] at hs
  split at hs
  · cases hs
  · generalize s.readAll c = r at hs ⊢
    obtain ⟨chunks, outcome, d⟩ := r
    cases outcome with
    | finished =>
      have hd : d = c' := congrArg Network.Sent.cells hs
      exact ⟨chunks, hd ▸ rfl⟩
    | pending => cases hs
    | chunk _ => cases hs
    | failed _ => cases hs

/-- A body that can be opened for every attempt. -/
def chunkedPut (chunks : List Bytes) : Request :=
  { plainGet with
    method := .put
    body := .streaming (.reopening ⟨0⟩ (.ofChunks chunks) none true) }

/-- An upload, with the integrity hooks in the chain, that fails once and is answered with the tag
then. -/
def retriedPut (chunks : List Bytes) (tag : String) :
    Execution Line Buffering BufferedResponse × World Stage Line Unit :=
  Execution.walk { scriptedClient ⟨[interceptor .enabled]⟩ with policy := ⟨.always, .none, 1⟩ }
    Buffering.handler 60
    (.start (chunkedPut chunks) .start (Attributes.empty.put .operationKind .upload),
      scripted [.ofStatus 503 "Busy", (Reply.ok []).withHeader Headers.entityTag tag])

end Rehearsal

namespace Execution

/-- The second attempt sends in two chunks what its answer's tag is the digest of. -/
theorem upload_intact_second_attempt :
    let tag := "\"5d41402abc4b2a76b9719d911017c592\""
    let r := Rehearsal.retriedPut [[104, 101, 108], [108, 111]] tag
    r.2.outside.received.map (·.body) =
        [[104, 101, 108, 108, 111], [104, 101, 108, 108, 111]] ∧
      ∃ bytes, (dealings r.1.history).Carries bytes ∧
        EntityTag.ofHex? (EntityTag.bare tag) = some (md5 bytes) := by
  intro tag r
  have hreceived : r.2.outside.received.map (·.body) =
      [[104, 101, 108, 108, 111], [104, 101, 108, 108, 111]] := by
    decide +kernel
  have hok : (r.1.outcome?.bind Except.toOption).isSome = true := by decide +kernel
  let head := ((Rehearsal.Reply.ok []).withHeader Headers.entityTag tag).head
  have hh : head ∈ (dealings r.1.history).heads := by decide +kernel
  have hd : EntityTag.IsDigest tag := ⟨by decide, List.all_eq_true.mp (by decide)⟩
  have hm : Moves
      { Rehearsal.scriptedClient ⟨[interceptor .enabled]⟩ with policy := ⟨.always, .none, 1⟩ }
      Buffering.handler (fun _ _ _ => False)
      (.start (Rehearsal.chunkedPut [[104, 101, 108], [108, 111]]) .start
          (Attributes.empty.put .operationKind .upload),
        Rehearsal.scripted [.ofStatus 503 "Busy",
          (Rehearsal.Reply.ok []).withHeader Headers.entityTag tag]) r := moves_walk 60 _
  refine ⟨hreceived, ?_⟩
  clear_value r
  obtain ⟨out, hout⟩ := Option.isSome_iff_exists.mp hok
  obtain ⟨outcome, ho, hout⟩ := Option.bind_eq_some_iff.mp hout
  cases outcome with
  | error e => cases hout
  | ok out =>
    obtain ⟨bytes, hc, _, hb⟩ := upload_intact rfl Rehearsal.network_readsBodies
      (fun hr => hr.elim) ⟨rfl, rfl⟩ ⟨by decide, by decide⟩ ⟨by decide, by decide, by decide⟩ rfl hm
      ho hh (by decide) (by decide +kernel) hd
    exact ⟨bytes, hc, hb⟩

end Execution

end Courier
