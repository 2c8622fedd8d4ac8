-- SUMMARY: When what the client prints after each command is the reply to that command.
import LinuxNet.CommandServer.Exchange

/-! # Commands and their replies

A command that is cut on its way is answered in parts, and a reply of which the
text is cut, or the end is left, shifts what the client prints from then on. -/

namespace LinuxNet.CommandServer

namespace Exchange

/-- What the client prints after its `k`-th command is the reply to that command. -/
def Matched (d : Exchange) : Prop :=
  ∀ (k : Nat) (printed : Option (List UInt8)), d.printed[k]? = some printed → ∃ command text,
    d.commands[k]? = some command ∧ d.answered[k]? = some (command, text) ∧ printed = some text

/-- The client is in `recv`. -/
def Waits (d : Exchange) : Prop := d.client.waits = true

/-- A receive of the handler takes all that the client has sent; one of the
client starts at the start of a block, with no other block behind it, and takes
the text in it. -/
def Whole (d : Exchange) : Label → Prop
  | .serverRecv n => n = d.toServer.length
  | .clientRecv n => d.toClient.length = messageSize ∧ (cString d.toClient).length ≤ n
  | _ => True

instance (d : Exchange) (l : Label) : Decidable (d.Whole l) := by
  cases l with
  | serverRecv n => exact inferInstanceAs (Decidable (n = d.toServer.length))
  | clientRecv n =>
    exact inferInstanceAs
      (Decidable (d.toClient.length = messageSize ∧ (cString d.toClient).length ≤ n))
  | _ => exact inferInstanceAs (Decidable True)

/-! ## One exchange after another -/

/-- The client is about to ask. `past` are the commands so far with the texts of
their replies; `left` zeros at the end of the last block have not been received. -/
def settled (past : List (List UInt8 × List UInt8)) (left : Nat) : Exchange :=
  { client := .reading
    toServer := []
    toClient := List.replicate left 0
    server := .receiving
    commands := past.map Prod.fst
    answered := past
    printed := past.map fun exchange => some exchange.2 }

/-- The client has sent a command. -/
def asked (past : List (List UInt8 × List UInt8)) (left : Nat) (command : List UInt8) : Exchange :=
  { settled past left with
    client := .receiving command
    toServer := command
    commands := past.map Prod.fst ++ [command] }

/-- The handler has received it. -/
def taken (past : List (List UInt8 × List UInt8)) (left : Nat) (command : List UInt8) : Exchange :=
  { asked past left command with
    toServer := []
    server := .answering command }

/-- The handler has answered it. -/
def replied (past : List (List UInt8 × List UInt8)) (left : Nat) (command : List UInt8)
    (time : Int) : Exchange :=
  { asked past left command with
    toServer := []
    toClient := List.replicate left 0 ++ reply command time
    server := if isLast command then .ended else .receiving
    answered := past ++ [(command, response command time)] }

/-- The client has ended the connection. -/
def parted (past : List (List UInt8 × List UInt8)) (left : Nat) : Exchange :=
  { settled past left with
    client := .finished
    server := .ended }

/-- The states in which every command has been answered by the reply to it. -/
inductive Aligned : Exchange → Prop
  | settled (past : List (List UInt8 × List UInt8)) {left : Nat} (hleft : left < messageSize) :
    Aligned (settled past left)
  | asked (past : List (List UInt8 × List UInt8)) {left : Nat} {command : List UInt8}
    (hleft : left < messageSize) (hcommand : IsCommand command) :
    Aligned (asked past left command)
  | taken (past : List (List UInt8 × List UInt8)) {left : Nat} {command : List UInt8}
    (hleft : left < messageSize) : Aligned (taken past left command)
  | replied (past : List (List UInt8 × List UInt8)) {left : Nat} {command : List UInt8}
    (time : Int) (hleft : left < messageSize) : Aligned (replied past left command time)
  | parted (past : List (List UInt8 × List UInt8)) {left : Nat} (hleft : left < messageSize) :
    Aligned (parted past left)

/-- What can no longer become right: a request that is not the command sent in its
place, or a print of something else than the reply. -/
inductive Spoiled (d : Exchange) : Prop
  | taken {request command : List UInt8} (hserver : d.server = .answering request)
    (hcommand : d.commands[d.answered.length]? = some command) (hne : request ≠ command)
  | answered {k : Nat} {request text command : List UInt8}
    (hanswered : d.answered[k]? = some (request, text))
    (hcommand : d.commands[k]? = some command) (hne : request ≠ command)
  | printed {k : Nat} {printed : Option (List UInt8)} (hprinted : d.printed[k]? = some printed)
    (hne : printed = some [] ∨ ∃ exchange : List UInt8 × List UInt8,
      d.answered[k]? = some exchange ∧ printed ≠ some exchange.2)

variable {d d' : Exchange} {l : Label} {ls : List Label} {command : List UInt8} {time : Int}
  {past : List (List UInt8 × List UInt8)} {left k n : Nat}

theorem getElem?_mono {α : Type} {xs ys : List α} {x : α} (h : xs <+: ys)
    (hx : xs[k]? = some x) : ys[k]? = some x := by
  obtain ⟨tail, rfl⟩ := h
  rwa [List.getElem?_append_left (List.getElem?_eq_some_iff.1 hx).1]

theorem matched_of_past (hcommands : past.map Prod.fst <+: d.commands)
    (hanswered : past <+: d.answered)
    (hprinted : d.printed = past.map fun exchange => some exchange.2) : d.Matched := by
  intro k printed hk
  rw [hprinted, List.getElem?_map] at hk
  obtain ⟨exchange, hpast, rfl⟩ := Option.map_eq_some_iff.1 hk
  refine ⟨_, _, getElem?_mono hcommands ?_, getElem?_mono hanswered hpast, rfl⟩
  rw [List.getElem?_map, hpast]
  rfl

theorem Aligned.matched (h : Aligned d) : d.Matched := by
  cases h with
  | settled past => exact matched_of_past List.prefix_rfl List.prefix_rfl rfl
  | asked past => exact matched_of_past (List.prefix_append _ _) List.prefix_rfl rfl
  | taken past => exact matched_of_past (List.prefix_append _ _) List.prefix_rfl rfl
  | replied past => exact matched_of_past (List.prefix_append _ _) (List.prefix_append _ _) rfl
  | parted past => exact matched_of_past List.prefix_rfl List.prefix_rfl rfl

/-! ## Steps of an aligned exchange -/

/-- What is left of a block behind its text are zeros. -/
theorem drop_reply (h : (response command time).length ≤ n) :
    (reply command time).drop n = List.replicate (messageSize - n) 0 := by
  rw [reply, filled, List.drop_append, List.drop_of_length_le h, List.nil_append,
    List.drop_replicate]
  congr 1
  have hfits := (response_isText command time).2.2
  omega

theorem printed_reply : cString (filled messageSize ((reply command time).take n)) =
    (response command time).take n := by
  rw [cString_filled, ← take_cString, cString_reply]

/-- A zero in front of the text is taken for its end. -/
theorem Spoiled.of_zero {tail : List UInt8} (hzero : d.toClient = 0 :: tail) (hn : 0 < n) :
    Spoiled (d.print command n) := by
  obtain ⟨m, rfl⟩ := Nat.exists_eq_add_of_lt hn
  have hempty : (d.print command (0 + m + 1)).printed[d.printed.length]? = some (some []) := by
    rw [print, List.getElem?_concat_length, cString_filled, hzero]
    simp [cString]
  exact .printed hempty (.inl rfl)

/-- While nothing has been sent in answer, a recv of the client can return zeros
of an earlier block only. -/
theorem print_unanswered (hzeros : d.toClient = List.replicate left 0)
    (hserver : d.server ≠ .ended) (hleft : left < messageSize)
    (hn : Receives messageSize d.toClient (d.server = .ended) n) :
    ¬ d.Whole (.clientRecv n) ∧ Spoiled (d.print command n) := by
  cases left with
  | zero => simp [Receives, hzeros, hserver] at hn
  | succ left =>
    have hcons : d.toClient = 0 :: List.replicate left 0 := hzeros
    rw [Receives, if_neg (by simp [hcons])] at hn
    refine ⟨fun hwhole => ?_, .of_zero hcons hn.1⟩
    rw [Whole, hzeros, List.length_replicate] at hwhole
    omega

theorem replied_print (past : List (List UInt8 × List UInt8)) (command : List UInt8) (time : Int)
    (hn : 0 < n) (h : (response command time).length ≤ n) :
    Aligned ((replied past 0 command time).print command n) := by
  have hleft : messageSize - n < messageSize := Nat.sub_lt (by decide) hn
  have hprinted : some ((response command time).take n) = some (response command time) := by
    rw [List.take_of_length_le h]
  have hstate : (replied past 0 command time).print command n =
      if isLast command then
        parted (past ++ [(command, response command time)]) (messageSize - n)
      else settled (past ++ [(command, response command time)]) (messageSize - n) := by
    simp only [print, replied, asked, settled, parted, List.replicate_zero, List.nil_append,
      drop_reply h, printed_reply, hprinted, if_neg hn.ne', List.map_append, List.map_cons,
      List.map_nil]
    split <;> rfl
  rw [hstate]
  split
  · exact .parted _ hleft
  · exact .settled _ hleft

/-- A part of a command is not the command. -/
theorem take_asked (past : List (List UInt8 × List UInt8)) (hleft : left < messageSize)
    (hcommand : IsCommand command) (hpos : 0 < n) (hle : n ≤ command.length) :
    (n = command.length → Aligned ((asked past left command).take n)) ∧
      (n ≠ command.length → Spoiled ((asked past left command).take n)) := by
  have hserver : ((asked past left command).take n).server = .answering (command.take n) := by
    have hrequest : requestIn (command.take n) = command.take n :=
      requestIn_eq fun hzero => hcommand.2.2 (List.mem_of_mem_take hzero)
    rw [Exchange.take, asked, if_neg hpos.ne', hrequest]
  constructor
  · rintro rfl
    rw [List.take_length] at hserver
    have hstate : (asked past left command).take command.length = taken past left command := by
      rw [Exchange.take, taken, ← hserver]
      simp [asked, Exchange.take]
    rw [hstate]
    exact .taken past hleft
  · intro hne
    have hlast : (past.map Prod.fst ++ [command])[past.length]? = some command := by
      rw [← List.length_map Prod.fst]
      exact List.getElem?_concat_length
    refine .taken hserver hlast fun he => hne ?_
    rw [← congrArg List.length he, List.length_take, min_eq_left hle]

/-- A text that is cut is printed as it is. -/
theorem cut_print (past : List (List UInt8 × List UInt8)) (hn : 0 < n)
    (hcut : n < (response command time).length) :
    Spoiled ((replied past 0 command time).print command n) := by
  have hdiffers : (response command time).take n ≠ response command time := fun he => by
    have hshort := congrArg List.length he
    rw [List.length_take] at hshort
    omega
  have hprinted : ((replied past 0 command time).print command n).printed[past.length]? =
      some (some ((response command time).take n)) := by
    rw [← printed_reply, ← List.length_map fun exchange => some exchange.2]
    simp only [print, if_neg hn.ne']
    exact List.getElem?_concat_length
  exact .printed hprinted (.inr ⟨(command, response command time), List.getElem?_concat_length,
    fun he => hdiffers (Option.some.inj he)⟩)

/-- A recv of the client gets the reply exactly if it starts where the reply does,
and returns its text. -/
theorem print_replied (past : List (List UInt8 × List UInt8)) (command : List UInt8)
    (time : Int) {closed : Bool}
    (hn : Receives messageSize (replied past left command time).toClient closed n) :
    ((replied past left command time).Whole (.clientRecv n) →
      Aligned ((replied past left command time).print command n)) ∧
    (¬ (replied past left command time).Whole (.clientRecv n) →
      Spoiled ((replied past left command time).print command n)) := by
  have hlength := reply_length command time
  have hne : (replied past left command time).toClient ≠ [] := fun hnil => by
    have hreply := (List.append_eq_nil_iff.1 hnil).2
    rw [hreply] at hlength
    cases hlength
  rw [Receives, if_neg hne] at hn
  cases left with
  | zero =>
    have htext : (cString (replied past 0 command time).toClient).length =
        (response command time).length := by
      rw [← cString_reply]
      rfl
    constructor
    · intro hwhole
      exact replied_print past command time hn.1 (htext.symm.trans_le hwhole.2)
    · intro hwhole
      apply cut_print past hn.1
      by_contra hle
      exact hwhole ⟨hlength, htext.trans_le (not_lt.1 hle)⟩
  | succ left =>
    refine ⟨fun hwhole => ?_, fun _ => .of_zero rfl hn.1⟩
    have htotal := hwhole.1
    rw [replied, List.length_append, List.length_replicate, hlength] at htotal
    omega

/-- A step of an aligned exchange keeps it so exactly if it takes a whole message. -/
theorem Aligned.next (h : Aligned d) (hmove : Moves d l d') :
    (d.Whole l → Aligned d') ∧ (¬ d.Whole l → Spoiled d') := by
  cases h with
  | settled past hleft =>
    cases hmove with
    | clientSend hclient hcommand =>
      exact ⟨fun _ => .asked past hleft hcommand, fun hwhole => absurd trivial hwhole⟩
    | clientRecv hclient => cases hclient
    | serverRecv hserver hn => simp [Receives, Exchange.settled] at hn
    | serverSend time hserver => cases hserver
  | @asked past left command hleft hcommand =>
    cases hmove with
    | clientSend hclient => cases hclient
    | clientRecv hclient hn =>
      have hpolling : (Exchange.asked past left command).server ≠ .ended := by
        simp [Exchange.asked, Exchange.settled]
      obtain ⟨hwhole, hspoiled⟩ := print_unanswered (by rfl) hpolling hleft hn
      exact ⟨fun h => absurd h hwhole, fun _ => hspoiled⟩
    | serverRecv hserver hn =>
      have hne : (Exchange.asked past left command).toServer ≠ [] := hcommand.1
      rw [Receives, if_neg hne] at hn
      exact take_asked past hleft hcommand hn.1 hn.2.2
    | serverSend time hserver => cases hserver
  | @taken past left command hleft =>
    cases hmove with
    | clientSend hclient => cases hclient
    | clientRecv hclient hn =>
      have hpolling : (Exchange.taken past left command).server ≠ .ended := by
        simp [Exchange.taken]
      obtain ⟨hwhole, hspoiled⟩ := print_unanswered (by rfl) hpolling hleft hn
      exact ⟨fun h => absurd h hwhole, fun _ => hspoiled⟩
    | serverRecv hserver => cases hserver
    | serverSend time hserver =>
      obtain rfl := ServerPc.answering.inj hserver
      exact ⟨fun _ => .replied past time hleft, fun hwhole => absurd trivial hwhole⟩
  | @replied past left command time hleft =>
    cases hmove with
    | clientSend hclient => cases hclient
    | clientRecv hclient hn =>
      obtain rfl := ClientPc.receiving.inj hclient
      exact print_replied past command time hn
    | serverRecv hserver hn => simp [Receives, Exchange.replied, Exchange.asked] at hn
    | serverSend time hserver =>
      simp only [Exchange.replied] at hserver
      split at hserver <;> cases hserver
  | parted past hleft =>
    cases hmove with
    | clientSend hclient => cases hclient
    | clientRecv hclient => cases hclient
    | serverRecv hserver => cases hserver
    | serverSend time hserver => cases hserver

/-! ## Spoiled exchanges -/

theorem Spoiled.next (h : Spoiled d) (hmove : Moves d l d') : Spoiled d' := by
  obtain ⟨hcommands, hanswered, hprinted⟩ := history_prefix hmove
  cases h with
  | answered ha hc hne =>
    exact .answered (getElem?_mono hanswered ha) (getElem?_mono hcommands hc) hne
  | printed hp hne =>
    refine .printed (getElem?_mono hprinted hp) (hne.imp_right ?_)
    rintro ⟨exchange, ha, hdiffers⟩
    exact ⟨exchange, getElem?_mono hanswered ha, hdiffers⟩
  | taken hserver hc hne =>
    cases hmove with
    | clientSend => exact .taken hserver (getElem?_mono hcommands hc) hne
    | clientRecv => exact .taken hserver hc hne
    | serverRecv hpolling => cases hserver.symm.trans hpolling
    | serverSend time hanswering =>
      obtain rfl := ServerPc.answering.inj (hserver.symm.trans hanswering)
      exact .answered List.getElem?_concat_length hc hne

/-- What is spoiled shows as soon as the client has its answer. -/
theorem Spoiled.not_matched (h : Spoiled d) (hd : d.Counted) (hdone : ¬ d.Waits) :
    ¬ d.Matched := by
  intro hmatched
  have hcount : d.printed.length = d.commands.length := by
    have hprinted := hd.printed
    rwa [Bool.eq_false_of_not_eq_true hdone] at hprinted
  have hanswer : ∀ {k : Nat} {command : List UInt8}, d.commands[k]? = some command →
      ∃ text, d.answered[k]? = some (command, text) := by
    intro k command hc
    have hlt : k < d.printed.length := hcount ▸ (List.getElem?_eq_some_iff.1 hc).1
    obtain ⟨command', text, hc', ha, -⟩ := hmatched k _ (List.getElem?_eq_getElem hlt)
    obtain rfl := Option.some.inj (hc.symm.trans hc')
    exact ⟨text, ha⟩
  cases h with
  | taken hserver hc hne =>
    obtain ⟨text, ha⟩ := hanswer hc
    exact absurd (List.getElem?_eq_some_iff.1 ha).1 (lt_irrefl _)
  | answered ha hc hne =>
    obtain ⟨text, ha'⟩ := hanswer hc
    exact hne (congrArg Prod.fst (Option.some.inj (ha.symm.trans ha')))
  | @printed k p hp hne =>
    obtain ⟨command, text, -, ha, rfl⟩ := hmatched k p hp
    rcases hne with hempty | ⟨exchange, ha', hdiffers⟩
    · exact hd.texts _ (List.mem_of_getElem? ha) (Option.some.inj hempty)
    · obtain rfl := Option.some.inj (ha.symm.trans ha')
      exact hdiffers rfl

end Exchange

/-! ## Runs -/

theorem connected_aligned : connected.Aligned := by
  have hleft : 0 < messageSize := by decide
  exact .settled [] hleft

/-- As long as the receives take whole messages, everything that the client prints
is the reply to the command before it. And only as long: if it is so for every
command when the client is about to send the next one or has finished, the
receives have taken whole messages. -/
theorem matched_iff_whole {ls : List Label} {d : Exchange} :
    (Run (fun d l d' => Step d l d' ∧ d.Whole l) connected ls d → d.Matched) ∧
    (Run Step connected ls d → ¬ d.Waits → d.Matched →
      Run (fun d l d' => Step d l d' ∧ d.Whole l) connected ls d) := by
  constructor
  · intro hrun
    have haligned : d.Aligned := hrun.invariant (I := Exchange.Aligned)
      (fun _ _ _ h hlast => (h.next hlast.1.moves).1 hlast.2) connected_aligned
    exact haligned.matched
  · intro hrun hdone hmatched
    have hcounted : d.Counted := hrun.invariant (I := Exchange.Counted)
      (fun _ _ _ h hlast => h.next hlast.moves) Exchange.connected_counted
    have hcases := hrun.invariant_or_spoiled (I := Exchange.Aligned) (B := Exchange.Spoiled)
      (P := Exchange.Whole)
      (fun s l t h hlast => by
        obtain ⟨hwhole, hcut⟩ := h.next hlast.moves
        by_cases hP : s.Whole l
        · exact .inl ⟨hP, hwhole hP⟩
        · exact .inr (hcut hP))
      (fun _ _ _ h hlast => h.next hlast.moves) connected_aligned
    exact hcases.elim And.right fun h => absurd hmatched (h.not_matched hcounted hdone)

/-- Two commands, and the reply to the second one is cut behind its text. -/
theorem matched_iff_whole_two : ∃ ls d,
    Run (fun d l d' => Step d l d' ∧ d.Whole l) connected ls d ∧ d.Matched ∧
      d.printed = [some (bytesOf "7"), some (bytesOf "OK")] := by
  let ls : List Label := [.clientSend timeCommand, .serverRecv 4, .serverSend 7, .clientRecv 1024,
    .clientSend (bytesOf "exit"), .serverRecv 4, .serverSend 8, .clientRecv 2]
  have hrun : (ls.foldlM (fun (d : Exchange) l => if d.Whole l then step d l else none)
      connected).map (fun d => decide (d.printed = [some (bytesOf "7"), some (bytesOf "OK")])) =
        some true := by
    decide +kernel
  obtain ⟨d, hlast, hprinted⟩ := Option.map_eq_some_iff.1 hrun
  have hwhole : Run (fun d l d' => Step d l d' ∧ d.Whole l) connected ls d :=
    Run.guarded_iff.2 hlast
  exact ⟨ls, d, hwhole, matched_iff_whole.1 hwhole, of_decide_eq_true hprinted⟩

/-- A command arrives in two parts, and the client prints the reply to the first. -/
theorem not_matched : ¬ ∀ ls d, Run Step connected ls d → d.Matched := by
  let ls : List Label := [.clientSend timeCommand, .serverRecv 2, .serverSend 7, .clientRecv 1024]
  have hrun : (ls.foldlM step connected).map (fun d => decide (d.commands[0]? = some timeCommand ∧
      d.answered[0]? = some (bytesOf "ti", bytesOf "Unknown request") ∧
      d.printed[0]? = some (some (bytesOf "Unknown request")))) = some true := by
    decide +kernel
  obtain ⟨d, hlast, hfacts⟩ := Option.map_eq_some_iff.1 hrun
  obtain ⟨hcommand, hanswered, hprinted⟩ := of_decide_eq_true hfacts
  intro hall
  obtain ⟨command, text, hcommand', hanswered', -⟩ :=
    hall ls d (Run.foldlM_iff.2 hlast) 0 _ hprinted
  obtain rfl := Option.some.inj (hcommand.symm.trans hcommand')
  have hcut : bytesOf "ti" = timeCommand :=
    congrArg Prod.fst (Option.some.inj (hanswered.symm.trans hanswered'))
  exact absurd hcut (by decide)

end LinuxNet.CommandServer
