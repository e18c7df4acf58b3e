import AnalysisServer.Proofs.Pool.Broadcast
import AnalysisServer.Proofs.System.CallSteps

namespace AnalysisServer

open Mailroom

variable {σ : Type}

def Mailroom.Delivered (setup : PoolSetup σ) (i : Nat) (id : RequestId) (x : Call) (streaming : Bool)
    (m m' : Mailroom) : Prop :=
  ∃ m₁ w g d, Prepared setup.fresh i m m₁ ∧ m₁.seats[i]? = some (some w, g) ∧
    m₁.desks[w]? = some d ∧ m' = m₁.deliver i g w d id x.request streaming

def Mailroom.AnsweredWell (m : Mailroom) (id : RequestId) : Prop :=
  ∃ t ∈ m.slips, t.id = id ∧ ∃ response, .final (.ok response) ∈ t.written

/-- What a step of a call can do to the mail. -/
inductive Mailroom.Visited (setup : PoolSetup σ) (m : Mailroom) (x : Call) : Mailroom → Prop
  | stay : Visited setup m x m
  | remember {L} (hr : x.request = .initLinter L) : Visited setup m x { m with linter := some L }
  | number : Visited setup m x { m with nextId := m.nextId + 1 }
  | send {i id streaming m'} (hid : x.stage.number? = some id) (hd : Delivered setup i id x streaming m m') :
      Visited setup m x m'
  | refused {i m'} (hp : Prepared setup.fresh i m m') : Visited setup m x m'

namespace System

variable {s : System σ} {x y : Call} {setup : PoolSetup σ} {q : Pool σ} {i : Nat} {id : RequestId}
  {streaming : Bool} {p : Pool σ} {m m' : Mailroom}

theorem delivered_of_enqueue {u : Unit} (h : p.enqueue setup i id x.request streaming = (.ok u, q)) :
    Delivered setup i id x streaming p.mailroom q.mailroom := by
  obtain ⟨m, hm, ⟨w, g, d, -, hseat, hd, hq⟩ | ⟨⟨e, he⟩, -⟩⟩ := Pool.mailroom_enqueue setup h
  · exact ⟨m, w, g, d, hm, hseat, hd, hq⟩
  · cases he

theorem prepared_of_enqueue {request : Request} {e : AnalysisError}
    (h : p.enqueue setup i id request streaming = (.error e, q)) :
    Prepared setup.fresh i p.mailroom q.mailroom := by
  obtain ⟨m, hm, ⟨w, g, d, hr, -⟩ | ⟨-, hq⟩⟩ := Pool.mailroom_enqueue setup h
  · cases hr
  · exact hq ▸ hm

theorem answeredWell_of_hear {response : Response}
    (h : p.hear id = some (.outcome (.ok response), q)) : p.mailroom.AnsweredWell id := by
  obtain ⟨t, ht, hid, hok⟩ := (Pool.mailroom_hear h).2 response rfl
  exact ⟨t, ht, hid, response, hok⟩

theorem mailroom_choose [Digest] (p : Pool σ) (request : Request) :
    (p.choose setup request).2.mailroom = p.mailroom := by
  unfold Pool.choose
  dsimp only
  split <;> rfl

theorem visited_mail (h : p.Visited setup x q) : p.mailroom.Visited setup x q.mailroom := by
  cases h with
  | stay => exact .stay
  | remember hr => exact .remember hr
  | number => exact .number
  | enqueue hid hq =>
    obtain ⟨m, hm, ⟨w, g, d, -, hseat, hd, hq⟩ | ⟨-, hq⟩⟩ := Pool.mailroom_enqueue setup hq
    · exact .send hid ⟨m, w, g, d, hm, hseat, hd, hq⟩
    · exact .refused (hq ▸ hm)
  | hear hq =>
    rw [(Pool.mailroom_hear hq).1]
    exact .stay
  | hearLast hq =>
    rw [Pool.mailroom_detach, (Pool.mailroom_hear hq).1]
    exact .stay

theorem visited_numbered (h : m.Visited setup x m') (hn : m.Numbered fun id ↦ x.stage.number? = some id) :
    m'.Numbered fun _ ↦ False := by
  cases h with
  | stay => exact hn.mono fun _ ↦ False.elim
  | remember => exact (hn.setLinter _).mono fun _ ↦ False.elim
  | number => exact hn.number fun _ ↦ False.elim
  | send hid hd =>
    obtain ⟨m₁, w, g, d, hprep, hseat, hd, rfl⟩ := hd
    exact (hprep.numbered hn).deliver hseat hd hid (fun _ h ↦ h.elim) _ _
  | refused hprep => exact (hprep.numbered hn).mono fun _ ↦ False.elim

end System

end AnalysisServer
