-- SUMMARY: While one connection is processed, the kernel sees calls on its two descriptors only.
import LinuxNet.TimerServer.Sweep

/-! # Frames

`Kernel.Frame c k k'` says what a step on the connection `c` may change in the
kernel: it appends calls on the descriptors of `c` to the record, and leaves
every other descriptor and its deadline alone. -/

namespace LinuxNet.TimerServer

variable {v : View} {a : Nat} {c : Connection}

def Syscall.fd : Syscall → Int
  | accept fd | recv fd | send fd | settime fd | close fd => fd

/-- From `k` to `k'` there were only calls on the descriptors of `c`. -/
structure Kernel.Frame (c : Connection) (k k' : Kernel) : Prop where
  now : k.now ≤ k'.now
  log : ∃ new, k'.log = k.log ++ new ∧
    ∀ e ∈ new, c.owns e.call.fd ∧ k.now ≤ e.time ∧ e.time ≤ k'.now
  deadline : ∀ fd, c.owns fd = false → k'.deadline fd = k.deadline fd
  openFds : ∀ fd, c.owns fd = false → fd ∈ k.openFds → fd ∈ k'.openFds

namespace Kernel.Frame

variable {k k' k'' : Kernel}

theorem refl : Kernel.Frame c k k :=
  ⟨le_rfl, ⟨[], by simp⟩, fun _ _ => rfl, fun _ _ h => h⟩

theorem trans (h : Kernel.Frame c k k') (h' : Kernel.Frame c k' k'') : Kernel.Frame c k k'' := by
  obtain ⟨new, hlog, hnew⟩ := h.log
  obtain ⟨new', hlog', hnew'⟩ := h'.log
  have hnow := h.now
  have hnow' := h'.now
  refine ⟨hnow.trans hnow', ⟨new ++ new', by rw [hlog', hlog, List.append_assoc], ?_⟩, ?_, ?_⟩
  · intro e he
    rcases List.mem_append.1 he with he | he
    · obtain ⟨howns, hle, hle'⟩ := hnew e he
      exact ⟨howns, hle, hle'.trans hnow'⟩
    · obtain ⟨howns, hle, hle'⟩ := hnew' e he
      exact ⟨howns, hnow.trans hle, hle'⟩
  · exact fun fd hfd => (h'.deadline fd hfd).trans (h.deadline fd hfd)
  · exact fun fd hfd hopen => h'.openFds fd hfd (h.openFds fd hfd hopen)

theorem advance (delay : Nat) : Kernel.Frame c k (k.advance delay) :=
  ⟨Nat.le_add_right _ _, ⟨[], by simp [Kernel.advance]⟩, fun _ _ => rfl, fun _ _ h => h⟩

theorem record {call : Syscall} (hcall : c.owns call.fd) : Kernel.Frame c k (k.record call) :=
  ⟨le_rfl, ⟨[⟨call, k.now⟩], rfl, by simpa [Kernel.record] using hcall⟩, fun _ _ => rfl,
    fun _ _ h => h⟩

theorem opened {fd : Int} (hfd : c.owns fd) : Kernel.Frame c k (k.opened fd) := by
  refine ⟨le_rfl, ⟨[], by simp [Kernel.opened]⟩, fun fd' hfd' => ?_, fun fd' _ h => ?_⟩
  · have hne : fd' ≠ fd := fun h => by
      rw [h, hfd] at hfd'
      cases hfd'
    exact Function.update_of_ne hne _ _
  · exact Finset.mem_insert_of_mem h

theorem close {fd : Int} (hfd : c.owns fd) : Kernel.Frame c k (k.close fd) := by
  have hne : ∀ fd', c.owns fd' = false → fd' ≠ fd := fun fd' hfd' h => by
    rw [h, hfd] at hfd'
    cases hfd'
  refine ⟨le_rfl, (record hfd : Kernel.Frame c k (k.record (.close fd))).log,
    fun fd' hfd' => ?_, fun fd' hfd' h => ?_⟩
  · exact Function.update_of_ne (hne fd' hfd') _ _
  · exact Finset.mem_erase.2 ⟨hne fd' hfd', h⟩

theorem arm {fd : Int} (hfd : c.owns fd) : Kernel.Frame c k (k.arm fd) := by
  have hne : ∀ fd', c.owns fd' = false → fd' ≠ fd := fun fd' hfd' h => by
    rw [h, hfd] at hfd'
    cases hfd'
  exact ⟨le_rfl, (record hfd : Kernel.Frame c k (k.record (.settime fd))).log,
    fun fd' hfd' => Function.update_of_ne (hne fd' hfd') _ _, fun _ _ h => h⟩

end Kernel.Frame

theorem ConnInput.exchanged_frame (inp : ConnInput) (c : Connection) (k : Kernel) :
    Kernel.Frame c k (inp.exchanged c k) := by
  have hrecv : Kernel.Frame c k ((k.advance inp.recvDelay).record (.recv c.connFd)) :=
    (Kernel.Frame.advance _).trans (Kernel.Frame.record c.owns_connFd)
  unfold ConnInput.exchanged
  dsimp only
  split
  · exact hrecv
  · split
    · exact hrecv.trans (Kernel.Frame.record c.owns_connFd)
    · exact hrecv

theorem refreshTimer_frame (c : Connection) (r : Option Errno) (k : Kernel) :
    Kernel.Frame c k (refreshTimer c.timerFd r k) := by
  unfold refreshTimer Kernel.timerfdSettime
  split
  · exact .refl
  · split
    · exact .refl
    · exact Kernel.Frame.arm c.owns_timerFd

namespace View

theorem remove_frame {fd : Int} (hfd : c.owns fd) : v.kernel.Frame c (v.remove fd).kernel := by
  unfold remove
  dsimp only
  split
  · exact Kernel.Frame.close hfd
  · exact .refl

theorem serve_frame (inp : ConnInput) : v.kernel.Frame c (v.serve inp c).kernel :=
  ((inp.exchanged_frame c v.kernel).trans (.advance _)).trans (refreshTimer_frame c _ _)

theorem delete_frame : v.kernel.Frame c (v.delete a c).kernel :=
  (remove_frame c.owns_connFd).trans (remove_frame c.owns_timerFd)

theorem process_frame (inp : ConnInput) : v.kernel.Frame c (v.process inp a c).kernel := by
  have hserved : v.kernel.Frame c (if v.socketReady c then v.serve inp c else v).kernel := by
    split
    · exact serve_frame inp
    · exact .refl
  unfold process
  dsimp only
  cases v.doomed inp c with
  | false => exact hserved
  | true => exact hserved.trans delete_frame

end View

end LinuxNet.TimerServer
