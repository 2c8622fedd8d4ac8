-- SUMMARY: When no session of the TLS server holds bytes that it has decrypted and not read, as the server calls poll.
import LinuxNet.OpenSslServer.Records

/-! # Bytes left in a session

A visit reads once, and poll reports nothing for what the session keeps. -/

namespace LinuxNet.OpenSslServer

open Tls (Conn Record)

variable {w w' : World} {l : Label} {ls : List Label} {x : Session} {c : Conn}
  {sockServer : Nat} {openFds : Finset Int}

/-- The request buffer after SSL_read. -/
def request (c : Conn) : List UInt8 := filled messageSize (c.incoming.take messageSize)

theorem disconnects_read :
    disconnects (c.read messageSize) = true ↔ c.incoming = [] ∨ isQuit (request c) = true := by
  by_cases hnone : c.incoming = []
  · refine ⟨fun _ => .inl hnone, fun _ => ?_⟩
    unfold Conn.read
    rw [if_neg (not_not.2 hnone)]
    split <;> rfl
  · have hchunk : c.incoming.take messageSize ≠ [] := by simp [hnone, messageSize]
    rw [Conn.read_of_incoming hnone]
    simp [disconnects, hchunk, hnone, request]

namespace World

/-- No session that the server has holds bytes that it has not read. -/
def Drained (w : World) : Prop := ∀ x ∈ w.server.sessions.live, (w.conn x).pending = []

theorem pending_afterVisit (hx : x ∈ w.server.sessions.live) : (w.afterVisit x).pending =
    if w.reading = some x then (w.conn x).incoming.drop messageSize else (w.conn x).pending := by
  rw [afterVisit, if_pos hx]
  split
  · exact Conn.afterRead_pending
  · rfl

theorem pending_new (hx : x ∉ w.server.sessions.live) : (w.afterVisit x).pending = [] := by
  rw [afterVisit, if_neg hx]
  rfl

/-- The visits of clients find what one SSL_read takes, or end the connection. -/
def ReadsAll (w : World) (l : Label) : Prop :=
  l.isVisit = true → ∀ x ∈ w.reading,
    (w.conn x).incoming.length ≤ messageSize ∨ isQuit (request (w.conn x)) = true

instance (w : World) (l : Label) : Decidable (w.ReadsAll l) := by
  unfold ReadsAll
  infer_instance

/-- When nothing is left in a session, a step leaves nothing if and only if its
visit finds no more than one SSL_read takes. -/
theorem Valid.readsAll_iff (hw : w.Valid) (hd : w.Drained) (h : Step w l w') :
    w.ReadsAll l ↔ w'.Drained := by
  by_cases hl : l.isVisit = true
  · obtain ⟨hconn, hvisits⟩ := hw.visits h hl
    have hrest : ∀ y, w.reading ≠ some y → (w'.conn y).pending = [] := by
      intro y hy
      rw [hconn]
      by_cases hlive : y ∈ w.server.sessions.live
      · rw [pending_afterVisit hlive, if_neg hy]
        exact hd y hlive
      · exact pending_new hlive
    cases hvisits with
    | dropped x hread hdrop hsessions =>
      refine ⟨fun _ y hy => hrest y fun hready => ?_, fun _ _ y hy => ?_⟩
      · obtain rfl := Option.some.inj (hread.symm.trans hready)
        rw [hsessions] at hy
        exact ((Server.mem_giveBack hw.paired.lease).1 hy).1 rfl
      · obtain rfl := Option.some.inj (hread.symm.trans hy)
        refine (disconnects_read.1 hdrop).imp_left fun hnone => ?_
        rw [hnone]
        exact Nat.zero_le _
    | answered x hread hkeep hsessions =>
      have hlive := hw.reading_mem hread
      have hquit : ¬ isQuit (request (w.conn x)) = true := fun hquit =>
        Bool.false_ne_true (hkeep.symm.trans (disconnects_read.2 (.inr hquit)))
      have hleft : (w'.conn x).pending = (w.conn x).incoming.drop messageSize := by
        rw [hconn, pending_afterVisit hlive, if_pos hread]
      constructor
      · intro hall y hy
        by_cases hready : w.reading = some y
        · obtain rfl := Option.some.inj (hread.symm.trans hready)
          rw [hleft]
          exact List.drop_eq_nil_of_le ((hall hl x hread).resolve_right hquit)
        · exact hrest y hready
      · intro hdrained _ y hy
        obtain rfl := Option.some.inj (hread.symm.trans hy)
        exact .inl (List.drop_eq_nil_iff.1 (hleft.symm.trans (hdrained x (hsessions ▸ hlive))))
    | other hidle =>
      exact ⟨fun _ y _ => hrest y (by rw [hidle]; exact nofun), fun _ _ y hy => by
        rw [hidle] at hy
        cases hy⟩
  · obtain ⟨hsessions, hpending⟩ := step_other h hl
    exact ⟨fun _ y hy => (hpending y).trans (hd y (hsessions ▸ hy)), fun _ hv => absurd hv hl⟩

end World

/-- In a run whose visits all find what one SSL_read takes, or end the connection,
no session holds bytes that the server has not read, in any state. From there a
step keeps it so exactly when its visit meets the condition. -/
theorem drained_of_readsAll (hlisten : (sockServer : Int) ∈ openFds)
    (hrun : Run (fun w l w' => Step w l w' ∧ w.ReadsAll l) (start sockServer openFds) ls w) :
    w.Drained ∧ ∀ l w', Step w l w' → (w.ReadsAll l ↔ w'.Drained) := by
  have hstart : (start sockServer openFds).Valid ∧ (start sockServer openFds).Drained :=
    ⟨World.Valid.start hlisten, fun _ _ => rfl⟩
  have hw : w.Valid ∧ w.Drained :=
    hrun.invariant (I := fun w => w.Valid ∧ w.Drained)
      (fun v l v' hv hstep =>
        ⟨hv.1.step hstep.1, (hv.1.readsAll_iff hv.2 hstep.1).1 hstep.2⟩) hstart
  exact ⟨hw.2, fun l w' hstep => hw.1.readsAll_iff hw.2 hstep⟩

def client : Session := ⟨1, 4⟩

/-- A client connects and sends a record, which arrives as a whole. -/
def oneRecord (r : Record) : List Label :=
  [.poll true, .visit (some 4) true, .visit none true, .write client r, .arrive client r.wire,
    .poll false, .visit none true, .visit none true]

def smallRecord : Record := ⟨[0x61], 23, by decide, by decide⟩

theorem drained_of_readsAll_small : ∃ w : World, w.Drained ∧ w.slot = none ∧
    client ∈ w.server.sessions.live ∧ (w.conn client).records = [] := by
  have hrun : ((oneRecord smallRecord).foldlM
      (fun (w : World) l => if w.ReadsAll l then step w l else none) (start 3 {3})).map
      (fun w : World => decide (w.slot = none ∧ client ∈ w.server.sessions.live ∧
        (w.conn client).records.length = 0)) = some true := by
    decide +kernel
  obtain ⟨w, hw, hfacts⟩ := Option.map_eq_some_iff.1 hrun
  obtain ⟨hslot, hlive, hrecords⟩ := of_decide_eq_true hfacts
  exact ⟨w, (drained_of_readsAll (by decide) (Run.guarded_iff.2 hw)).1, hslot, hlive,
    List.length_eq_zero_iff.1 hrecords⟩

/-- A byte more than one SSL_read takes. -/
def largeRecord : Record where
  payload := List.replicate 1025 0x61
  wire := 1047
  bound := by rw [List.length_replicate]; decide
  header := by rw [List.length_replicate]; decide

/-- The last byte stays in the session, and poll does not report its socket. -/
theorem largeRecord_not_drained : ¬ ∀ ls (w : World), Run Step (start 3 {3}) ls w → w.slot = none →
    w.Drained := by
  intro hall
  have hrun : ((oneRecord largeRecord).foldlM step (start 3 {3})).map
      (fun w : World => decide (w.slot = none ∧ client ∈ w.server.sessions.live ∧
        (w.conn client).pending = [0x61])) = some true := by
    decide +kernel
  obtain ⟨w, hw, hfacts⟩ := Option.map_eq_some_iff.1 hrun
  obtain ⟨hslot, hlive, hpending⟩ := of_decide_eq_true hfacts
  have hnil := hall _ w (Run.foldlM_iff.2 hw) hslot client hlive
  rw [hpending] at hnil
  cases hnil

end LinuxNet.OpenSslServer
