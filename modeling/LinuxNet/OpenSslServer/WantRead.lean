-- SUMMARY: When the TLS server drops only clients that left or asked to, and answers the others.
import LinuxNet.Base.CString
import LinuxNet.OpenSslServer.Stranded

/-! # Reads that have to wait

SSL_read also fails where a part of a record has arrived. The server drops the
client then, as it does for one that has left. -/

namespace LinuxNet.OpenSslServer

open Tls (Conn Record)

variable {w w' : World} {l : Label} {ls : List Label} {x : Session} {c : Conn}
  {sockServer : Nat} {openFds : Finset Int}

/-- The record that is read next is a message equal to "quit" or "exit". What is
left of an earlier record is no message. -/
def AsksToQuit (c : Conn) : Prop := c.pending = [] ∧ isQuit c.incoming = true

theorem isQuit_request : isQuit (request c) = isQuit c.incoming := by
  have hword : ∀ word : List UInt8, word.length < messageSize →
      decide (cString (request c) = word) = decide (cString c.incoming = word) := fun word hlt =>
    decide_eq_decide.2 (by rw [request, cString_filled, cString_take_eq_iff hlt])
  rw [isQuit, isQuit, hword _ (by decide), hword _ (by decide)]

namespace World

/-- The visits of clients that are there find a whole record, or something left of
one that is not "quit" or "exit". -/
def FindsRecord (w : World) (l : Label) : Prop :=
  l.isVisit = true → ∀ x ∈ w.reading, (w.conn x).Alive →
    (w.conn x).incoming ≠ [] ∧ ((w.conn x).pending ≠ [] → isQuit (w.conn x).incoming = false)

instance (w : World) (l : Label) : Decidable (w.FindsRecord l) := by
  unfold FindsRecord
  infer_instance

/-- A step removes a client only if it has left or asks to quit, and answers one
that it visits, once a record of it is complete. -/
structure Serves (w : World) (l : Label) (w' : World) : Prop where
  removed : ∀ x ∈ w.server.sessions.live, (w.conn x).Alive → x ∉ w'.server.sessions.live →
    AsksToQuit (w.conn x)
  answered : l.isVisit = true → ∀ x ∈ w.reading, (w.conn x).Alive →
    (w.conn x).incoming ≠ [] → ¬ AsksToQuit (w.conn x) →
      x ∈ w'.server.sessions.live ∧ .sslWrite x ∈ w'.server.calls

theorem Valid.findsRecord_iff (hw : w.Valid) (h : Step w l w') :
    w.FindsRecord l ↔ w.Serves l w' := by
  by_cases hl : l.isVisit = true
  · obtain ⟨-, hvisits⟩ := hw.visits h hl
    cases hvisits with
    | dropped x hread hdrop hsessions =>
      have hlive := hw.reading_mem hread
      have hgone : ∀ y, y ∈ w'.server.sessions.live ↔ y ≠ x ∧ y ∈ w.server.sessions.live :=
        fun y => by rw [hsessions, Server.mem_giveBack hw.paired.lease]
      have hquit : (w.conn x).incoming ≠ [] → isQuit (w.conn x).incoming = true := fun hsome =>
        isQuit_request ▸ (disconnects_read.1 hdrop).resolve_left hsome
      constructor
      · intro hfinds
        have hasks : (w.conn x).Alive → AsksToQuit (w.conn x) := fun halive => by
          obtain ⟨hsome, hleft⟩ := hfinds hl x hread halive
          refine ⟨not_not.1 fun hpending => ?_, hquit hsome⟩
          exact Bool.false_ne_true ((hleft hpending).symm.trans (hquit hsome))
        refine ⟨fun y hy halive hnot => ?_, fun _ y hy halive _ hno => ?_⟩
        · obtain rfl : y = x := not_not.1 fun hne => hnot ((hgone y).2 ⟨hne, hy⟩)
          exact hasks halive
        · obtain rfl := Option.some.inj (hread.symm.trans hy)
          exact absurd (hasks halive) hno
      · intro hserves _ y hy halive
        obtain rfl := Option.some.inj (hread.symm.trans hy)
        obtain ⟨hpending, hasked⟩ := hserves.removed x hlive halive fun hin =>
          ((hgone x).1 hin).1 rfl
        refine ⟨fun hnone => ?_, fun hsome => absurd hpending hsome⟩
        rw [hnone] at hasked
        exact absurd hasked (by decide)
    | answered x hread hkeep hsessions hwrite =>
      have hfound : ¬ ((w.conn x).incoming = [] ∨ isQuit (w.conn x).incoming = true) := fun hor =>
        Bool.false_ne_true (hkeep.symm.trans (disconnects_read.2 (isQuit_request ▸ hor)))
      refine ⟨fun _ => ⟨fun y hy _ hnot => absurd (hsessions ▸ hy) hnot, ?_⟩, fun _ _ y hy _ => ?_⟩
      · intro _ y hy _ _ _
        obtain rfl := Option.some.inj (hread.symm.trans hy)
        exact ⟨hsessions ▸ hw.reading_mem hread, hwrite⟩
      · obtain rfl := Option.some.inj (hread.symm.trans hy)
        exact ⟨fun hnone => hfound (.inl hnone), fun _ =>
          Bool.eq_false_iff.2 fun hquit => hfound (.inr hquit)⟩
    | other hidle hkeep =>
      have hnone : ∀ y, y ∉ w.reading := fun y hy => by
        rw [hidle] at hy
        cases hy
      exact ⟨fun _ => ⟨fun y hy _ hnot => absurd (hkeep y hy) hnot,
        fun _ y hy => absurd hy (hnone y)⟩, fun _ _ y hy => absurd hy (hnone y)⟩
  · obtain ⟨hsessions, -⟩ := step_other h hl
    exact ⟨fun _ => ⟨fun y hy _ hnot => absurd (hsessions ▸ hy) hnot, fun hv => absurd hv hl⟩,
      fun _ hv => absurd hv hl⟩

end World

/-- The runs in which every client that is removed has left or asks to quit, and a
client that is visited when a record is complete is answered, are those whose
visits of clients that are there find a whole record. -/
theorem serves_iff_findsRecord (hlisten : (sockServer : Int) ∈ openFds) :
    Run (fun w l w' => Step w l w' ∧ w.Serves l w') (start sockServer openFds) ls w ↔
      Run (fun w l w' => Step w l w' ∧ w.FindsRecord l) (start sockServer openFds) ls w :=
  Run.iff_of_invariant (I := World.Valid) (fun _ _ _ hv hstep => (hv.findsRecord_iff hstep).symm)
    (fun _ _ _ hv hstep _ => hv.step hstep) (World.Valid.start hlisten)

theorem serves_iff_findsRecord_small : ∃ w : World,
    Run (fun w l w' => Step w l w' ∧ w.Serves l w') (start 3 {3}) (oneRecord smallRecord) w ∧
      .sslWrite client ∈ w.server.calls := by
  have hrun : ((oneRecord smallRecord).foldlM
      (fun (w : World) l => if w.FindsRecord l then step w l else none) (start 3 {3})).map
      (fun w : World => decide (.sslWrite client ∈ w.server.calls)) = some true := by
    decide +kernel
  obtain ⟨w, hw, hfacts⟩ := Option.map_eq_some_iff.1 hrun
  exact ⟨w, (serves_iff_findsRecord (by decide)).2 (Run.guarded_iff.2 hw), of_decide_eq_true hfacts⟩

/-- A client connects and sends a record, of which the first bytes arrive. -/
def cutRecord : List Label :=
  [.poll true, .visit (some 4) true, .visit none true, .write client smallRecord,
    .arrive client 5, .poll false, .visit none true]

/-- The server drops the client before the rest of the record arrives. -/
theorem cutRecord_not_served : ¬ ∀ ls (w : World) l w', Run Step (start 3 {3}) ls w →
    Step w l w' → w.Serves l w' := by
  intro hall
  have hrun : (cutRecord.foldlM step (start 3 {3})).bind (fun w =>
      (step w (.visit none true)).map fun w' => decide (client ∈ w.server.sessions.live ∧
        (w.conn client).Alive ∧ client ∉ w'.server.sessions.live ∧
        (w.conn client).incoming = [])) = some true := by
    decide +kernel
  obtain ⟨w, hw, hlast⟩ := Option.bind_eq_some_iff.1 hrun
  obtain ⟨w', hw', hfacts⟩ := Option.map_eq_some_iff.1 hlast
  obtain ⟨hlive, halive, hgone, hnone⟩ := of_decide_eq_true hfacts
  have hasks := (hall _ w _ w' (Run.foldlM_iff.2 hw) hw').removed client hlive halive hgone
  rw [AsksToQuit, hnone] at hasks
  exact absurd hasks.2 (by decide)

end LinuxNet.OpenSslServer
