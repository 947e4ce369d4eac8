import Platoon.Sync.Oneshot

/-!
# Runs of the oneshot channel

One bit stands for three events: sent, sender dropped, receiver closed.  The
invariant says what the bit, the message and the two waker slots are for the
operations that were performed so far, in any order.
-/

namespace Platoon.Sync.Oneshot

open Platoon.Foundation Platoon.Rust

variable {T W : Type}

/-- The message that a step sent with `Ok`. -/
def sentBy : Op T W × Output T W → Option T
  | (.send message, { answer := .sent (.ok ()), .. }) => some message
  | _ => none

/-- The message that a step returned to the receiver. -/
def deliveredBy : Op T W × Output T W → Option T
  | (.poll _, { answer := .polled (.ready (.ok message)), .. }) => some message
  | (.tryRecv, { answer := .tried (.ok (some message)), .. }) => some message
  | _ => none

/-- The waker that a pending poll of the receiver stored. -/
def polledBy : Op T W × Output T W → Option W
  | (.poll waker, { answer := .polled .pending, .. }) => some waker
  | _ => none

/-- The waker that a pending poll of the sender stored. -/
def polledClosedBy : Op T W × Output T W → Option W
  | (.pollClosed waker, { answer := .pollClosed .pending, .. }) => some waker
  | _ => none

section History

variable (trace : List (Op T W × Output T W))

/-- The sender was consumed by `send` or dropped. -/
def senderEnded : Bool := trace.any fun event => event.1.endsSender

/-- The receiver was closed or dropped. -/
def receiverEnded : Bool := trace.any fun event => event.1.endsReceiver

def receiverDropped : Bool := trace.any fun event => event.1.dropsReceiver

/-- The messages that were sent with `Ok`. -/
def sent : List T := trace.filterMap sentBy

/-- The messages that the receiver returned. -/
def delivered : List T := trace.filterMap deliveredBy

/-- The waker of the last poll of the receiver that was pending. -/
def lastPolled : Option W := (trace.filterMap polledBy).getLast?

/-- The waker of the last poll of the sender that was pending. -/
def lastPolledClosed : Option W := (trace.filterMap polledClosedBy).getLast?

/-- The message was sent and not yet returned. -/
def Untaken (message : T) : Prop := sent trace = [message] ∧ delivered trace = []

variable (event : Op T W × Output T W)

@[simp]
theorem senderEnded_snoc :
    senderEnded (trace ++ [event]) = (senderEnded trace || event.1.endsSender) := by
  simp [senderEnded]

@[simp]
theorem receiverEnded_snoc :
    receiverEnded (trace ++ [event]) = (receiverEnded trace || event.1.endsReceiver) := by
  simp [receiverEnded]

@[simp]
theorem receiverDropped_snoc :
    receiverDropped (trace ++ [event]) = (receiverDropped trace || event.1.dropsReceiver) := by
  simp [receiverDropped]

@[simp]
theorem sent_snoc : sent (trace ++ [event]) = sent trace ++ (sentBy event).toList := by
  cases hsent : sentBy event <;> simp [sent, hsent]

@[simp]
theorem delivered_snoc :
    delivered (trace ++ [event]) = delivered trace ++ (deliveredBy event).toList := by
  cases hdelivered : deliveredBy event <;> simp [delivered, hdelivered]

@[simp]
theorem lastPolled_snoc :
    lastPolled (trace ++ [event]) = (polledBy event).or (lastPolled trace) := by
  cases hpolled : polledBy event <;> simp [lastPolled, hpolled]

@[simp]
theorem lastPolledClosed_snoc :
    lastPolledClosed (trace ++ [event]) = (polledClosedBy event).or (lastPolledClosed trace) := by
  cases hpolled : polledClosedBy event <;> simp [lastPolledClosed, hpolled]

end History

/-- What the channel holds after the operations of a trace. -/
structure Holds (trace : List (Op T W × Output T W)) (channel : Channel T W) : Prop where
  complete : channel.shared.complete = (senderEnded trace || receiverEnded trace)
  hasSender : channel.hasSender = !senderEnded trace
  hasReceiver : channel.hasReceiver = !receiverDropped trace
  message : delivered trace ++ channel.shared.message.toList = sent trace
  unsent : senderEnded trace = false → sent trace = []
  once : (sent trace).length ≤ 1
  sender : channel.shared.sender =
    if channel.shared.complete then none else lastPolledClosed trace
  receiver : channel.shared.receiver =
    if channel.hasSender && channel.hasReceiver then lastPolled trace else none
  dropped : receiverDropped trace = true → receiverEnded trace = true

namespace Holds

variable {trace : List (Op T W × Output T W)} {channel last : Channel T W}

theorem new : Holds ([] : List (Op T W × Output T W)) Channel.new := by
  constructor <;> simp [Channel.new, senderEnded, receiverEnded, receiverDropped, sent, delivered,
    lastPolled, lastPolledClosed]

/-- As long as the sender is owned, nothing was sent. -/
theorem nothing_sent (hholds : Holds trace channel) (halive : channel.hasSender = true) :
    senderEnded trace = false ∧ sent trace = [] ∧ delivered trace = [] ∧
      channel.shared.message = none := by
  have hopen : senderEnded trace = false := by simpa [hholds.hasSender] using halive
  have hnone := hholds.unsent hopen
  have hmessage := hholds.message
  rw [hnone, List.append_eq_nil_iff, Option.toList_eq_nil_iff] at hmessage
  exact ⟨hopen, hnone, hmessage⟩

/-- As long as the bit is clear, both halves are owned. -/
theorem incomplete (hholds : Holds trace channel) (hcomplete : channel.shared.complete = false) :
    channel.hasSender = true ∧ channel.hasReceiver = true := by
  have hneither := hholds.complete.symm.trans hcomplete
  obtain ⟨hopen, hunclosed⟩ := Bool.or_eq_false_iff.mp hneither
  constructor
  · simp [hholds.hasSender, hopen]
  · rw [hholds.hasReceiver, Bool.not_eq_true']
    by_contra hdropped
    have hended := hholds.dropped (by simpa using hdropped)
    rw [hunclosed] at hended
    cases hended

/-- The sender is consumed, after it sent a message or not. -/
theorem endSender (hholds : Holds trace channel) (halive : channel.hasSender = true)
    {op : Op T W} {output : Output T W} {shared : Shared T W} (hop : op.endsSender = true)
    (hkeeps : op.endsReceiver = false ∧ op.dropsReceiver = false)
    (hmessage : shared.message = sentBy (op, output))
    (hsilent : deliveredBy (op, output) = none ∧ polledBy (op, output) = none ∧
      polledClosedBy (op, output) = none) :
    Holds (trace ++ [(op, output)])
      { channel with shared := (Sender.drop shared).1, hasSender := false } := by
  obtain ⟨hopen, hnone, hdelivered, -⟩ := hholds.nothing_sent halive
  constructor
  · simp [Sender.drop, hop]
  · simp [hop]
  · simp [hholds.hasReceiver, hkeeps.2]
  · simp [Sender.drop, hmessage, hdelivered, hnone, hsilent.1]
  · simp [hop]
  · simp only [sent_snoc, hnone, List.nil_append]
    cases sentBy (op, output) <;> simp
  · simp [Sender.drop]
  · simp [Sender.drop]
  · simp only [receiverDropped_snoc, receiverEnded_snoc, hkeeps.1, hkeeps.2, Bool.or_false]
    exact hholds.dropped

/-- The receiver is closed or dropped. -/
theorem endReceiver (hholds : Holds trace channel) (op : Op T W) (woken : List W)
    (hop : op.endsReceiver = true) :
    Holds (trace ++ [(op, { woken, answer := .unit })])
      { channel with
        shared :=
          { channel.shared with
            complete := true
            sender := none
            receiver := if op.dropsReceiver then none else channel.shared.receiver }
        hasReceiver := channel.hasReceiver && !op.dropsReceiver } := by
  have hkeeps : op.endsSender = false ∧ sentBy (op, { woken, answer := .unit }) = none ∧
      deliveredBy (op, { woken, answer := .unit }) = none ∧
      polledBy (op, { woken, answer := .unit }) = none := by
    cases op with
    | close => exact ⟨rfl, rfl, rfl, rfl⟩
    | dropReceiver => exact ⟨rfl, rfl, rfl, rfl⟩
    | _ => cases hop
  obtain ⟨hopen, hsent, hdelivered, hpolled⟩ := hkeeps
  constructor
  · simp [hop]
  · simp [hholds.hasSender, hopen]
  · simp [hholds.hasReceiver]
  · simp [hsent, hdelivered, hholds.message]
  · simpa [hopen, hsent] using hholds.unsent
  · simpa [hsent] using hholds.once
  · simp
  · rw [lastPolled_snoc, hpolled, Option.none_or]
    cases op.dropsReceiver with
    | true => simp
    | false => simpa using hholds.receiver
  · simp [hop]

/-- A step that ends neither half and receives nothing. -/
theorem keep (hholds : Holds trace channel) {op : Op T W} {output : Output T W}
    {sender receiver : Option W}
    (hkeeps : op.endsSender = false ∧ op.endsReceiver = false ∧ op.dropsReceiver = false)
    (hsilent : sentBy (op, output) = none ∧ deliveredBy (op, output) = none)
    (hsender : sender = if channel.shared.complete then none
      else (polledClosedBy (op, output)).or (lastPolledClosed trace))
    (hreceiver : receiver = if channel.hasSender && channel.hasReceiver then
      (polledBy (op, output)).or (lastPolled trace) else none) :
    Holds (trace ++ [(op, output)])
      { channel with shared := { channel.shared with sender, receiver } } := by
  constructor
  · simp [hholds.complete, hkeeps]
  · simp [hholds.hasSender, hkeeps]
  · simp [hholds.hasReceiver, hkeeps]
  · simp [hholds.message, hsilent]
  · simpa [hkeeps, hsilent] using hholds.unsent
  · simpa [hsilent] using hholds.once
  · simp [hsender]
  · simp [hreceiver]
  · simpa [hkeeps] using hholds.dropped

/-- The receiver takes the message, or finds none. -/
theorem receive (hholds : Holds trace channel) (hcomplete : channel.shared.complete = true)
    {op : Op T W} {output : Output T W} (hop : op.receives = true)
    (hpolled : polledBy (op, output) = none)
    (hdelivered : deliveredBy (op, output) = channel.shared.message) :
    Holds (trace ++ [(op, output)])
      { channel with shared := { channel.shared with message := none } } := by
  have hkeeps : op.endsSender = false ∧ op.endsReceiver = false ∧ op.dropsReceiver = false ∧
      sentBy (op, output) = none := by
    cases op with
    | poll waker => exact ⟨rfl, rfl, rfl, rfl⟩
    | tryRecv => exact ⟨rfl, rfl, rfl, rfl⟩
    | _ => cases hop
  constructor
  · simp [hholds.complete, hkeeps]
  · simp [hholds.hasSender, hkeeps]
  · simp [hholds.hasReceiver, hkeeps]
  · simp [hdelivered, hkeeps, hholds.message]
  · simpa [hkeeps] using hholds.unsent
  · simpa [hkeeps] using hholds.once
  · simpa [hcomplete] using hholds.sender
  · simpa [hpolled] using hholds.receiver
  · simpa [hkeeps] using hholds.dropped

theorem receiveNone (hholds : Holds trace channel) (hcomplete : channel.shared.complete = true)
    (hmessage : channel.shared.message = none) {op : Op T W} {output : Output T W}
    (hop : op.receives = true) (hpolled : polledBy (op, output) = none)
    (hdelivered : deliveredBy (op, output) = none) : Holds (trace ++ [(op, output)]) channel := by
  have hreceive := hholds.receive hcomplete hop hpolled (hdelivered.trans hmessage.symm)
  rwa [← hmessage] at hreceive

theorem step (hholds : Holds trace channel) {op : Op T W} {output : Output T W}
    (hstep : channel.step op = .next last output) : Holds (trace ++ [(op, output)]) last := by
  have hsenderSlot : channel.shared.complete = true → channel.shared.sender = none := by
    intro hcomplete
    rw [hholds.sender, if_pos hcomplete]
  cases op with
  | send message =>
      simp only [Channel.step, Outcome.when_eq_next] at hstep
      obtain ⟨halive, hstep⟩ := hstep
      cases hstep
      apply hholds.endSender halive rfl ⟨rfl, rfl⟩
      · unfold Sender.send
        split
        · exact (hholds.nothing_sent halive).2.2.2
        · rfl
      · exact ⟨rfl, rfl, rfl⟩
  | dropSender =>
      simp only [Channel.step, Outcome.when_eq_next] at hstep
      obtain ⟨halive, hstep⟩ := hstep
      cases hstep
      apply hholds.endSender halive rfl ⟨rfl, rfl⟩
      · exact (hholds.nothing_sent halive).2.2.2
      · exact ⟨rfl, rfl, rfl⟩
  | pollClosed waker =>
      simp only [Channel.step, Outcome.when_eq_next, Sender.pollClosed] at hstep
      obtain ⟨halive, hstep⟩ := hstep
      split at hstep
      · rename_i hcomplete
        cases hstep
        exact hholds.keep ⟨rfl, rfl, rfl⟩ ⟨rfl, rfl⟩ (by simp [hcomplete, hsenderSlot])
          hholds.receiver
      · rename_i hcomplete
        cases hstep
        apply hholds.keep ⟨rfl, rfl, rfl⟩ ⟨rfl, rfl⟩
        · simp [hcomplete, polledClosedBy]
        · exact hholds.receiver
  | isClosed =>
      simp only [Channel.step, Outcome.when_eq_next] at hstep
      obtain ⟨halive, hstep⟩ := hstep
      cases hstep
      exact hholds.keep ⟨rfl, rfl, rfl⟩ ⟨rfl, rfl⟩ hholds.sender hholds.receiver
  | poll waker =>
      simp only [Channel.step, Outcome.when_eq_next, Receiver.poll] at hstep
      obtain ⟨halive, hstep⟩ := hstep
      split at hstep
      · rename_i hcomplete
        split at hstep
        · rename_i message hmessage
          cases hstep
          apply hholds.receive hcomplete rfl rfl
          exact hmessage.symm
        · rename_i hmessage
          cases hstep
          exact hholds.receiveNone hcomplete hmessage rfl rfl rfl
      · rename_i hcomplete
        obtain ⟨hopen, hunclosed⟩ := hholds.incomplete (by simpa using hcomplete)
        cases hstep
        apply hholds.keep ⟨rfl, rfl, rfl⟩ ⟨rfl, rfl⟩
        · exact hholds.sender
        · simp [hopen, hunclosed, polledBy]
  | tryRecv =>
      simp only [Channel.step, Outcome.when_eq_next, Receiver.tryRecv] at hstep
      obtain ⟨halive, hstep⟩ := hstep
      split at hstep
      · rename_i hcomplete
        split at hstep
        · rename_i message hmessage
          cases hstep
          apply hholds.receive hcomplete rfl rfl
          exact hmessage.symm
        · rename_i hmessage
          cases hstep
          exact hholds.receiveNone hcomplete hmessage rfl rfl rfl
      · cases hstep
        exact hholds.keep ⟨rfl, rfl, rfl⟩ ⟨rfl, rfl⟩ hholds.sender hholds.receiver
  | close =>
      simp only [Channel.step, Outcome.when_eq_next] at hstep
      obtain ⟨halive, hstep⟩ := hstep
      cases hstep
      simpa [Op.dropsReceiver, Receiver.close] using hholds.endReceiver .close _ rfl
  | dropReceiver =>
      simp only [Channel.step, Outcome.when_eq_next] at hstep
      obtain ⟨halive, hstep⟩ := hstep
      cases hstep
      simpa [Op.dropsReceiver, Receiver.drop] using hholds.endReceiver .dropReceiver _ rfl

/-- After the operations of a run, in any order, the channel holds what they say. -/
theorem run (hrun : Channel.system.Run Channel.new trace channel) : Holds trace channel :=
  hrun.invariant Holds new fun _ hholds hstep => hholds.step hstep

end Holds

section Delivery

variable {trace : List (Op T W × Output T W)} {channel last : Channel T W} {op : Op T W}
  {output : Output T W}

/-- The message cell holds the message that was sent and not yet returned. -/
theorem untaken_iff (hholds : Holds trace channel) (message : T) :
    Untaken trace message ↔ channel.shared.message = some message := by
  have hmessage := hholds.message
  have honce := hholds.once
  constructor
  · rintro ⟨hsent, hdelivered⟩
    rw [hsent, hdelivered, List.nil_append] at hmessage
    cases hcell : channel.shared.message with
    | none => simp [hcell] at hmessage
    | some other => simpa [hcell] using hmessage
  · intro hcell
    rw [hcell] at hmessage
    rw [← hmessage, List.length_append] at honce
    have hnone : delivered trace = [] :=
      List.eq_nil_of_length_eq_zero (by simpa using honce)
    exact ⟨by rw [← hmessage, hnone]; rfl, hnone⟩

/-- What a receiving operation may return after a trace. -/
structure Received (trace : List (Op T W × Output T W)) (returns : T → Prop)
    (closed pending : Prop) : Prop where
  message : ∀ message, returns message ↔ Untaken trace message
  closed : closed ↔ (senderEnded trace = true ∨ receiverEnded trace = true) ∧
    ∀ message, ¬ Untaken trace message
  pending : pending ↔ senderEnded trace = false ∧ receiverEnded trace = false

/-- Both receiving operations read the bit, and then the message cell. -/
theorem received_of_shared (hholds : Holds trace channel) {returns : T → Prop}
    {closed pending : Prop}
    (hreturns : ∀ message, returns message ↔
      channel.shared.complete = true ∧ channel.shared.message = some message)
    (hclosed : closed ↔ channel.shared.complete = true ∧ channel.shared.message = none)
    (hpending : pending ↔ channel.shared.complete = false) :
    Received trace returns closed pending := by
  have hcomplete : ∀ message, channel.shared.message = some message →
      channel.shared.complete = true := by
    intro message hcell
    have hsent := ((untaken_iff hholds message).mpr hcell).1
    rw [hholds.complete, Bool.or_eq_true]
    left
    by_contra hopen
    rw [hholds.unsent (by simpa using hopen)] at hsent
    cases hsent
  constructor
  · intro message
    rw [hreturns, untaken_iff hholds]
    exact ⟨And.right, fun hcell => ⟨hcomplete message hcell, hcell⟩⟩
  · rw [hclosed, hholds.complete, Bool.or_eq_true]
    simp only [untaken_iff hholds, Option.eq_none_iff_forall_ne_some]
  · rw [hpending, hholds.complete, Bool.or_eq_false_iff]

/-- `send` fails exactly on a receiver that was closed or dropped. -/
theorem send_answer (hholds : Holds trace channel) {message : T}
    (hstep : channel.step (.send message) = .next last output) :
    output.answer = .sent (if receiverEnded trace then .error message else .ok ()) := by
  simp only [Channel.step, Outcome.when_eq_next] at hstep
  obtain ⟨halive, hstep⟩ := hstep
  cases hstep
  obtain ⟨hopen, -⟩ := hholds.nothing_sent halive
  simp only [Sender.send, hholds.complete, hopen, Bool.false_or]
  split <;> rfl

theorem poll_answer (hholds : Holds trace channel) {waker : W}
    (hstep : channel.step (.poll waker) = .next last output) :
    ∃ result, output.answer = .polled result ∧
      Received trace (fun message => result = .ready (.ok message))
        (result = .ready (.error ⟨⟩)) (result = .pending) := by
  simp only [Channel.step, Outcome.when_eq_next] at hstep
  obtain ⟨halive, hstep⟩ := hstep
  cases hstep
  refine ⟨_, rfl, received_of_shared hholds ?_ ?_ ?_⟩
  · intro message
    unfold Receiver.poll
    cases hcomplete : channel.shared.complete <;>
      cases hmessage : channel.shared.message <;> simp
  · unfold Receiver.poll
    cases hcomplete : channel.shared.complete <;>
      cases hmessage : channel.shared.message <;> simp
  · unfold Receiver.poll
    cases hcomplete : channel.shared.complete <;>
      cases hmessage : channel.shared.message <;> simp

theorem tryRecv_answer (hholds : Holds trace channel)
    (hstep : channel.step .tryRecv = .next last output) :
    ∃ result, output.answer = .tried result ∧
      Received trace (fun message => result = .ok (some message))
        (result = .error ⟨⟩) (result = .ok none) := by
  simp only [Channel.step, Outcome.when_eq_next] at hstep
  obtain ⟨halive, hstep⟩ := hstep
  cases hstep
  refine ⟨_, rfl, received_of_shared hholds ?_ ?_ ?_⟩
  · intro message
    unfold Receiver.tryRecv
    cases hcomplete : channel.shared.complete <;>
      cases hmessage : channel.shared.message <;> simp
  · unfold Receiver.tryRecv
    cases hcomplete : channel.shared.complete <;>
      cases hmessage : channel.shared.message <;> simp
  · unfold Receiver.tryRecv
    cases hcomplete : channel.shared.complete <;>
      cases hmessage : channel.shared.message <;> simp

/-- What was returned is a part of what was sent. -/
theorem delivered_sublist (hholds : Holds trace channel) :
    (delivered trace).Sublist (sent trace) := by
  rw [← hholds.message]
  exact List.sublist_append_left _ _

/-- Without receiving operations, nothing is returned. -/
theorem delivered_of_silent (hsilent : ∀ event ∈ trace, event.1.receives = false) :
    delivered trace = [] := by
  rw [delivered, List.filterMap_eq_nil_iff]
  rintro ⟨op, output⟩ hmem
  have hop := hsilent (op, output) hmem
  cases op with
  | poll waker => cases hop
  | tryRecv => cases hop
  | _ => rfl

/-- A message that was sent is there until a receiving operation. -/
theorem untaken_of_sent {message : T} {after : List (Op T W × Output T W)}
    (hrun : Channel.system.Run Channel.new (trace ++ (.send message, output) :: after) channel)
    (hanswer : output.answer = .sent (.ok ()))
    (hsilent : ∀ event ∈ after, event.1.receives = false) :
    Untaken (trace ++ (.send message, output) :: after) message := by
  have hholds := Holds.run hrun
  obtain ⟨middle, hfront, hback⟩ := hrun.split
  obtain ⟨next, hstep, -⟩ := hback.first_step
  have hbefore := Holds.run hfront
  have halive : middle.hasSender = true := by
    simp only [Channel.system, Channel.step, Outcome.when_eq_next] at hstep
    exact hstep.1
  have hsentBy : sentBy ((.send message, output) : Op T W × Output T W) = some message := by
    obtain ⟨woken, answer⟩ := output
    simp only at hanswer
    subst hanswer
    rfl
  constructor
  · have honce := hholds.once
    simp only [sent, List.filterMap_append, List.filterMap_cons, hsentBy, List.length_append,
      List.length_cons] at honce ⊢
    rw [List.eq_nil_of_length_eq_zero (show (trace.filterMap sentBy).length = 0 by omega),
      List.eq_nil_of_length_eq_zero (show (after.filterMap sentBy).length = 0 by omega)]
    rfl
  · have hnone := (hbefore.nothing_sent halive).2.2.1
    have hlater := delivered_of_silent hsilent
    have hdeliveredBy : deliveredBy ((.send message, output) : Op T W × Output T W) = none := rfl
    simp only [delivered] at hnone hlater
    simp only [delivered, List.filterMap_append, List.filterMap_cons, hdeliveredBy, hnone, hlater,
      List.append_nil]

/-- Over every run, with the operations of the two halves in any order: `send` fails exactly
on a closed receiver, giving the message back; a message that was sent is returned by the next
receiving operation and by no other one; and a receiving operation that returns no message
tells whether a half has ended the channel. -/
theorem oneshot_delivers (hrun : Channel.system.Run Channel.new trace channel) :
    (sent trace).length ≤ 1 ∧ (delivered trace).Sublist (sent trace) ∧
      (∀ before out after message, trace = before ++ (.send message, out) :: after →
        out.answer = .sent (.ok ()) → (∀ event ∈ after, event.1.receives = false) →
        Untaken trace message) ∧
      ∀ op last output, Channel.system.step channel op = .next last output →
        match op with
        | .send message =>
            output.answer = .sent (if receiverEnded trace then .error message else .ok ())
        | .poll _ =>
            ∃ result, output.answer = .polled result ∧
              Received trace (fun message => result = .ready (.ok message))
                (result = .ready (.error ⟨⟩)) (result = .pending)
        | .tryRecv =>
            ∃ result, output.answer = .tried result ∧
              Received trace (fun message => result = .ok (some message))
                (result = .error ⟨⟩) (result = .ok none)
        | _ => True := by
  have hholds := Holds.run hrun
  refine ⟨hholds.once, delivered_sublist hholds, ?_, ?_⟩
  · rintro before out after message rfl hanswer hsilent
    exact untaken_of_sent hrun hanswer hsilent
  · intro op last output hstep
    cases op with
    | send message => exact send_answer hholds hstep
    | poll waker => exact poll_answer hholds hstep
    | tryRecv => exact tryRecv_answer hholds hstep
    | _ => trivial

/-- A message that was sent before `close` is still there after it. -/
theorem oneshot_delivers_afterClose :
    ∃ channel, Channel.system.Run (Channel.new : Channel Nat Nat)
        [(.send 7, { answer := .sent (.ok ()) }), (.close, { answer := .unit })] channel ∧
      Untaken ([(.send 7, { answer := .sent (.ok ()) }), (.close, { answer := .unit })] :
        List (Op Nat Nat × Output Nat Nat)) 7 := by
  have hexec : Channel.system.exec (Channel.new : Channel Nat Nat) [.send 7, .close] =
      some ([(.send 7, { answer := .sent (.ok ()) }), (.close, { answer := .unit })],
        { shared := { complete := true, message := some 7 }, hasSender := false }) := rfl
  have hrun := System.exec_run hexec
  refine ⟨_, hrun, (oneshot_delivers hrun).2.2.1 [] _ _ 7 rfl rfl ?_⟩
  simp [Op.receives]

end Delivery

section Wakes

variable {trace : List (Op T W × Output T W)} {channel last : Channel T W} {op : Op T W}
  {output : Output T W}

def polls : Op T W → Bool
  | .poll _ => true
  | _ => false

def pollsClosed : Op T W → Bool
  | .pollClosed _ => true
  | _ => false

/-- Which wakers a step wakes: the end of the sender that of the receiver's last pending poll,
and the first end of the receiver that of the sender's. -/
theorem woken_step (hholds : Holds trace channel) (hstep : channel.step op = .next last output) :
    output.woken =
      if op.endsSender then
        if channel.hasReceiver then (lastPolled trace).toList else []
      else if op.endsReceiver then
        if senderEnded trace || receiverEnded trace then [] else (lastPolledClosed trace).toList
      else [] := by
  have hreceiver : channel.hasSender = true → channel.shared.receiver.toList =
      if channel.hasReceiver then (lastPolled trace).toList else [] := by
    intro halive
    rw [hholds.receiver, halive, Bool.true_and]
    split <;> rfl
  have hsender : channel.shared.sender.toList =
      if senderEnded trace || receiverEnded trace then [] else (lastPolledClosed trace).toList := by
    rw [hholds.sender, hholds.complete]
    split <;> rfl
  cases op with
  | send message =>
      simp only [Channel.step, Outcome.when_eq_next] at hstep
      obtain ⟨halive, hstep⟩ := hstep
      cases hstep
      have hslot : (Sender.send channel.shared message).1.receiver = channel.shared.receiver := by
        unfold Sender.send
        split <;> rfl
      simp only [Sender.drop, hslot, Op.endsSender, ↓reduceIte]
      exact hreceiver halive
  | dropSender =>
      simp only [Channel.step, Outcome.when_eq_next] at hstep
      obtain ⟨halive, hstep⟩ := hstep
      cases hstep
      exact hreceiver halive
  | close =>
      simp only [Channel.step, Outcome.when_eq_next] at hstep
      cases hstep.2
      exact hsender
  | dropReceiver =>
      simp only [Channel.step, Outcome.when_eq_next] at hstep
      cases hstep.2
      exact hsender
  | _ =>
      simp only [Channel.step, Outcome.when_eq_next] at hstep
      cases hstep.2
      rfl

/-- Where an event of a run finds the channel. -/
theorem event_of_run {before after : List (Op T W × Output T W)}
    (hrun : Channel.system.Run Channel.new (before ++ (op, output) :: after) channel) :
    ∃ middle next, Holds before middle ∧ middle.step op = .next next output := by
  obtain ⟨middle, hfront, hback⟩ := hrun.split
  obtain ⟨next, hstep, -⟩ := hback.first_step
  exact ⟨middle, next, Holds.run hfront, hstep⟩

/-- The last pending poll of the receiver, when no other poll follows. -/
theorem lastPolled_of_pending {before mid : List (Op T W × Output T W)} {waker : W}
    (hpending : output.answer = .polled .pending)
    (hmid : ∀ event ∈ mid, polls event.1 = false) :
    lastPolled (before ++ (.poll waker, output) :: mid) = some waker := by
  obtain ⟨woken, answer⟩ := output
  simp only at hpending
  subst hpending
  have hnone : mid.filterMap polledBy = [] := by
    rw [List.filterMap_eq_nil_iff]
    rintro ⟨op, output⟩ hmem
    have hop := hmid (op, output) hmem
    cases op with
    | poll waker => cases hop
    | _ => rfl
  simp [lastPolled, hnone, polledBy]

theorem lastPolledClosed_of_pending {before mid : List (Op T W × Output T W)} {waker : W}
    (hpending : output.answer = .pollClosed .pending)
    (hmid : ∀ event ∈ mid, pollsClosed event.1 = false) :
    lastPolledClosed (before ++ (.pollClosed waker, output) :: mid) = some waker := by
  obtain ⟨woken, answer⟩ := output
  simp only at hpending
  subst hpending
  have hnone : mid.filterMap polledClosedBy = [] := by
    rw [List.filterMap_eq_nil_iff]
    rintro ⟨op, output⟩ hmem
    have hop := hmid (op, output) hmem
    cases op with
    | pollClosed waker => cases hop
    | _ => rfl
  simp [lastPolledClosed, hnone, polledClosedBy]

/-- Once the sender is gone, no step wakes anyone. -/
theorem woken_of_ended (hholds : Holds trace channel) (hended : senderEnded trace = true)
    (hstep : channel.step op = .next last output) : output.woken = [] := by
  have hop : op.endsSender = false := by
    by_contra hends
    have halive : channel.hasSender = true := by
      cases op with
      | send message =>
          simp only [Channel.step, Outcome.when_eq_next] at hstep
          exact hstep.1
      | dropSender =>
          simp only [Channel.step, Outcome.when_eq_next] at hstep
          exact hstep.1
      | _ => exact absurd rfl hends
    rw [hholds.hasSender, hended] at halive
    cases halive
  rw [woken_step hholds hstep, hop, hended]
  simp

/-- The end of the sender wakes the task that waits for the message. -/
theorem woken_of_endSender {before mid after : List (Op T W × Output T W)} {waker : W}
    {polled : Output T W}
    (hrun : Channel.system.Run Channel.new
      (before ++ (.poll waker, polled) :: mid ++ (op, output) :: after) channel)
    (hpending : polled.answer = .polled .pending) (hop : op.endsSender = true)
    (hmid : ∀ event ∈ mid, polls event.1 = false ∧ event.1.dropsReceiver = false) :
    output.woken = [waker] ∧ ∀ event ∈ after, event.2.woken = [] := by
  constructor
  · obtain ⟨middle, next, hholds, hstep⟩ := event_of_run hrun
    have hpoll := hrun
    rw [List.append_assoc, List.cons_append] at hpoll
    obtain ⟨start, started, hstart, hpolled⟩ := event_of_run hpoll
    have hreceiver : middle.hasReceiver = true := by
      have halive : start.hasReceiver = true := by
        simp only [Channel.step, Outcome.when_eq_next] at hpolled
        exact hpolled.1
      rw [hstart.hasReceiver, Bool.not_eq_true'] at halive
      have hkept : receiverDropped mid = false := by
        rw [receiverDropped, List.any_eq_false]
        intro event hmem
        simp [(hmid event hmem).2]
      rw [hholds.hasReceiver, Bool.not_eq_true']
      simp only [receiverDropped] at halive hkept
      simp only [receiverDropped, List.any_append, List.any_cons, halive, hkept]
      rfl
    rw [woken_step hholds hstep, hop, hreceiver,
      lastPolled_of_pending hpending fun event hmem => (hmid event hmem).1]
    rfl
  · intro event hmem
    obtain ⟨between, rest, rfl⟩ := List.append_of_mem hmem
    have hlater := hrun
    rw [← List.cons_append, ← List.append_assoc] at hlater
    obtain ⟨middle, next, hholds, hstep⟩ := event_of_run hlater
    apply woken_of_ended hholds _ hstep
    simp [senderEnded, hop]

/-- The first end of the receiver wakes the task that waits for it. -/
theorem woken_of_endReceiver {before mid after : List (Op T W × Output T W)} {waker : W}
    {polled : Output T W}
    (hrun : Channel.system.Run Channel.new
      (before ++ (.pollClosed waker, polled) :: mid ++ (op, output) :: after) channel)
    (hpending : polled.answer = .pollClosed .pending) (hop : op.endsReceiver = true)
    (hmid : ∀ event ∈ mid, pollsClosed event.1 = false ∧ event.1.endsSender = false ∧
      event.1.endsReceiver = false) :
    output.woken = [waker] ∧
      ∀ event ∈ after, event.1.endsReceiver = true → event.2.woken = [] := by
  have hends : op.endsSender = false := by
    cases op with
    | close => rfl
    | dropReceiver => rfl
    | _ => cases hop
  constructor
  · obtain ⟨middle, next, hholds, hstep⟩ := event_of_run hrun
    have hpoll := hrun
    rw [List.append_assoc, List.cons_append] at hpoll
    obtain ⟨start, started, hstart, hpolled⟩ := event_of_run hpoll
    have hopen : start.shared.complete = false := by
      simp only [Channel.step, Outcome.when_eq_next, Sender.pollClosed] at hpolled
      obtain ⟨-, hpolled⟩ := hpolled
      split at hpolled
      · cases hpolled
        cases hpending
      · rename_i hclear
        simpa using hclear
    rw [hstart.complete, Bool.or_eq_false_iff] at hopen
    have hsender : senderEnded mid = false := by
      rw [senderEnded, List.any_eq_false]
      intro event hmem
      simp [(hmid event hmem).2.1]
    have hreceiver : receiverEnded mid = false := by
      rw [receiverEnded, List.any_eq_false]
      intro event hmem
      simp [(hmid event hmem).2.2]
    simp only [senderEnded, receiverEnded] at hopen hsender hreceiver
    rw [woken_step hholds hstep, hop, hends,
      lastPolledClosed_of_pending hpending fun event hmem => (hmid event hmem).1]
    simp only [senderEnded, receiverEnded, List.any_append, List.any_cons, hopen, hsender,
      hreceiver]
    rfl
  · intro event hmem hagain
    obtain ⟨between, rest, rfl⟩ := List.append_of_mem hmem
    have hlater := hrun
    rw [← List.cons_append, ← List.append_assoc] at hlater
    obtain ⟨middle, next, hholds, hstep⟩ := event_of_run hlater
    have hended : event.1.endsSender = false := by
      obtain ⟨op, output⟩ := event
      cases op with
      | close => rfl
      | dropReceiver => rfl
      | _ => cases hagain
    rw [woken_step hholds hstep, hended, hagain]
    simp [receiverEnded, hop]

/-- A complete channel stores no waker any more. -/
theorem complete_step (hcomplete : channel.shared.complete = true)
    (hstep : channel.step op = .next last output) :
    last.shared.complete = true ∧
      (last.shared.sender = none ∨ last.shared.sender = channel.shared.sender) ∧
      (last.shared.receiver = none ∨ last.shared.receiver = channel.shared.receiver) := by
  cases op with
  | send message =>
      simp only [Channel.step, Outcome.when_eq_next] at hstep
      cases hstep.2
      exact ⟨rfl, .inl rfl, .inl rfl⟩
  | dropSender =>
      simp only [Channel.step, Outcome.when_eq_next] at hstep
      cases hstep.2
      exact ⟨rfl, .inl rfl, .inl rfl⟩
  | pollClosed waker =>
      simp only [Channel.step, Outcome.when_eq_next, Sender.pollClosed, hcomplete] at hstep
      cases hstep.2
      exact ⟨hcomplete, .inr rfl, .inr rfl⟩
  | isClosed =>
      simp only [Channel.step, Outcome.when_eq_next] at hstep
      cases hstep.2
      exact ⟨hcomplete, .inr rfl, .inr rfl⟩
  | poll waker =>
      simp only [Channel.step, Outcome.when_eq_next, Receiver.poll, hcomplete] at hstep
      cases hmessage : channel.shared.message with
      | none =>
          rw [hmessage] at hstep
          cases hstep.2
          exact ⟨hcomplete, .inr rfl, .inr rfl⟩
      | some message =>
          rw [hmessage] at hstep
          cases hstep.2
          exact ⟨rfl, .inr rfl, .inr rfl⟩
  | tryRecv =>
      simp only [Channel.step, Outcome.when_eq_next, Receiver.tryRecv, hcomplete] at hstep
      cases hmessage : channel.shared.message with
      | none =>
          rw [hmessage] at hstep
          cases hstep.2
          exact ⟨hcomplete, .inr rfl, .inr rfl⟩
      | some message =>
          rw [hmessage] at hstep
          cases hstep.2
          exact ⟨rfl, .inr rfl, .inr rfl⟩
  | close =>
      simp only [Channel.step, Outcome.when_eq_next] at hstep
      cases hstep.2
      exact ⟨rfl, .inl rfl, .inr rfl⟩
  | dropReceiver =>
      simp only [Channel.step, Outcome.when_eq_next] at hstep
      cases hstep.2
      exact ⟨rfl, .inl rfl, .inl rfl⟩

/-- The slot of a half that has been dropped is empty. -/
theorem slots_of_dropped (hholds : Holds trace channel) :
    (channel.hasSender = false → channel.shared.sender = none) ∧
      (channel.hasReceiver = false → channel.shared.receiver = none) := by
  constructor
  · intro hgone
    have hended : senderEnded trace = true := by simpa [hholds.hasSender] using hgone
    simp [hholds.sender, hholds.complete, hended]
  · intro hgone
    simp [hholds.receiver, hgone]

/-- Over every run, with the operations of the two halves in any order: the end of the sender
wakes the waker of the receiver's last pending poll and no other, the first end of the receiver
that of the sender's, and no other operation wakes; a complete channel stores no new waker, and
the slot of a dropped half is empty. -/
theorem oneshot_wakes (hrun : Channel.system.Run Channel.new trace channel) :
    (∀ before mid after waker polled op output,
      trace = before ++ (.poll waker, polled) :: mid ++ (op, output) :: after →
      polled.answer = .polled .pending → op.endsSender = true →
      (∀ event ∈ mid, polls event.1 = false ∧ event.1.dropsReceiver = false) →
      output.woken = [waker] ∧ ∀ event ∈ after, event.2.woken = []) ∧
    (∀ before mid after waker polled op output,
      trace = before ++ (.pollClosed waker, polled) :: mid ++ (op, output) :: after →
      polled.answer = .pollClosed .pending → op.endsReceiver = true →
      (∀ event ∈ mid, pollsClosed event.1 = false ∧ event.1.endsSender = false ∧
        event.1.endsReceiver = false) →
      output.woken = [waker] ∧
        ∀ event ∈ after, event.1.endsReceiver = true → event.2.woken = []) ∧
    (∀ before after op output, trace = before ++ (op, output) :: after →
      output.woken =
        if op.endsSender then
          if receiverDropped before then [] else (lastPolled before).toList
        else if op.endsReceiver then
          if senderEnded before || receiverEnded before then []
          else (lastPolledClosed before).toList
        else []) ∧
    (∀ op last output, channel.shared.complete = true →
      Channel.system.step channel op = .next last output →
      last.shared.complete = true ∧
        (last.shared.sender = none ∨ last.shared.sender = channel.shared.sender) ∧
        (last.shared.receiver = none ∨ last.shared.receiver = channel.shared.receiver)) ∧
    (channel.hasSender = false → channel.shared.sender = none) ∧
      (channel.hasReceiver = false → channel.shared.receiver = none) := by
  refine ⟨?_, ?_, ?_, ?_, slots_of_dropped (Holds.run hrun)⟩
  · rintro before mid after waker polled op output rfl hpending hop hmid
    exact woken_of_endSender hrun hpending hop hmid
  · rintro before mid after waker polled op output rfl hpending hop hmid
    exact woken_of_endReceiver hrun hpending hop hmid
  · rintro before after op output rfl
    obtain ⟨middle, next, hholds, hstep⟩ := event_of_run hrun
    rw [woken_step hholds hstep, hholds.hasReceiver]
    cases receiverDropped before <;> rfl
  · intro op last output hcomplete hstep
    exact complete_step hcomplete hstep

/-- After two polls with different wakers, the drop of the sender wakes the second one. -/
theorem oneshot_wakes_changedTask :
    ∃ (output : Output Nat Nat) (channel : Channel Nat Nat),
      Channel.system.Run Channel.new
        [(.poll 3, { answer := .polled .pending }), (.poll 4, { answer := .polled .pending }),
          (.dropSender, output)] channel ∧ output.woken = [4] := by
  have hexec : Channel.system.exec (Channel.new : Channel Nat Nat) [.poll 3, .poll 4, .dropSender] =
      some ([(.poll 3, { answer := .polled .pending }), (.poll 4, { answer := .polled .pending }),
          (.dropSender, { woken := [4], answer := .unit })],
        { shared := { complete := true }, hasSender := false }) := rfl
  have hrun := System.exec_run hexec
  refine ⟨_, _, hrun, ?_⟩
  exact ((oneshot_wakes hrun).1 [(.poll 3, { answer := .polled .pending })] [] [] 4 _ _ _ rfl
    rfl rfl (by simp)).1

end Wakes

end Platoon.Sync.Oneshot
