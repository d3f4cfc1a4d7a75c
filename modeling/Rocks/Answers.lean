import Rocks.FinalReply

/-! Every message that the program sends to a client, from its first byte to the relay. -/
namespace Rocks
open Async Buffer Bytes Segments
open Socks5Connected ClientM

/-- What the client of a stream `bs` has to be sent, and when. -/
def Answered (cfg : OutgoingConfig) (bs : List UInt8) (trace : List Event) : Prop :=
  match readGreeting bs with
  | .truncated | .notSocks5 _ _ => trace = []
  | .noMethod _ => trace = sentToClient [5, 0xff]
  | .accepted request =>
    match readRequest request with
    | .truncated | .notSocks5 _ _ => trace = sentToClient [5, 0]
    | .otherCommand _ =>
      ∃ dest port, trace = sentToClient ([5, 0] ++ encodeReply 7 dest port)
    | .unknownAddrType _ | .invalidName _ =>
      ∃ dest port, trace = sentToClient ([5, 0] ++ encodeReply 8 dest port)
    | .connect _ _ _ =>
      ∃ es rep dest port es', trace =
          sentToClient [5, 0] ++ es ++ sentToClient (encodeReply rep dest port) ++ es' ∧
        Tried cfg es ∧ ∀ e ∈ es', e = relayBetween .client .remote

theorem replied_of_none (env : Env) {w : Wire} (hroom : w.room .client = none) (err : Socks5Error) :
    replied env w err = (.ok (), w.deliver .client (encodeReply err.code (.v4 ⟨127, 0, 0, 1⟩) 0)
      (encodeReply err.code (.v4 ⟨127, 0, 0, 1⟩) 0).length) := written_of_none env hroom _

/-- The reply is sent twice when the address type is unknown. -/
theorem two_replies_ne (dest dest' : Destination) (port port' : UInt16) (rep rep' : UInt8) :
    encodeReply rep dest port ++ encodeReply rep dest port ≠ encodeReply rep' dest' port' := by
  intro h
  -- one reply reads back with nothing behind it, two leave the second one
  have hd := decodeReply_encode rep dest port (encodeReply rep dest port)
  have hd' := decodeReply_encode rep' dest' port' []
  rw [List.append_nil] at hd'
  rw [h, hd'] at hd
  simp [encodeReply] at hd

section trace

variable (env : Env) (debugLog : Bool) (cfg : OutgoingConfig) (w : Wire)

theorem run_handleClient_trace_err {e : Error} {w1 : Wire}
    (hn : Task.run (wire env) ((nextRequest debugLog).run held) w = (.err e, w1)) :
    (Task.run (wire env) (handleClient debugLog held cfg) w).2.trace = w1.trace := by
  rw [wire, run_handleClient_err takeExact env w debugLog cfg hn]

/-- The trace of a run that gets past the greeting and does not panic, by the kind of request. -/
theorem handleClient_trace_accepted (hroom : w.room .client = none) (htrace : w.trace = [])
    {request : List UInt8} (hg : readGreeting (w.input .client) = .accepted request)
    (hp : (Task.run (wire env) (handleClient debugLog held cfg) w).1 ≠ .panic) :
    match readRequest request with
    | .truncated | .notSocks5 _ _ =>
      (Task.run (wire env) (handleClient debugLog held cfg) w).2.trace = sentToClient [5, 0]
    | .otherCommand _ => (Task.run (wire env) (handleClient debugLog held cfg) w).2.trace =
        sentToClient ([5, 0] ++ encodeReply 7 (.v4 ⟨127, 0, 0, 1⟩) 0)
    | .unknownAddrType _ => (Task.run (wire env) (handleClient debugLog held cfg) w).2.trace =
        sentToClient ([5, 0] ++ (encodeReply 8 (.v4 ⟨127, 0, 0, 1⟩) 0 ++
          encodeReply 8 (.v4 ⟨127, 0, 0, 1⟩) 0))
    | .invalidName _ => (Task.run (wire env) (handleClient debugLog held cfg) w).2.trace =
        sentToClient ([5, 0] ++ encodeReply 8 (.v4 ⟨127, 0, 0, 1⟩) 0)
    | .connect dest port _ =>
      ∃ es, (∀ e ∈ es, e = relayBetween .client .remote) ∧
        (Task.run (wire env) (handleClient debugLog held cfg) w).2.trace =
          sentToClient [5, 0] ++ tried env cfg (dest.parsed port) ++
            sentToClient (encodeReply (reason env cfg (dest.parsed port)).code dest
              (dest.parsed port).port) ++ es := by
  have hgw : (greeted w request).room .client = none := by simp [greeted, World.deliver, roomLeft, hroom]
  have hgt : (greeted w request).trace = sentToClient [5, 0] := by
    simp [greeted, htrace, sentToClient]
  have hroom' : accepted (w.room .client) 2 = 2 := by rw [hroom]; rfl
  have hn := run_nextRequest_accepted env debugLog w request hg hroom'
  -- an oversized name panics, which `hp` excludes
  have ho : ¬OversizedName request := by
    intro ho
    refine hp (run_handleClient_panic takeExact env w debugLog cfg ?_)
    rw [hn]
    exact run_getRequest_oversized env _ debugLog (by rwa [greeted_input])
  rw [run_getRequest env _ debugLog (by rwa [greeted_input]), greeted_input] at hn
  cases hr : readRequest request with
  | truncated =>
    rw [hr] at hn
    exact (run_handleClient_trace_err env debugLog cfg _ hn).trans hgt
  | notSocks5 p rest =>
    rw [hr] at hn
    exact (run_handleClient_trace_err env debugLog cfg _ hn).trans hgt
  | otherCommand rest =>
    have hc : ((greeted w request).consume .client rest).room .client = none := hgw
    simp only [hr, replied_of_none env hc, Task.andThen_ok] at hn
    rw [run_handleClient_trace_err env debugLog cfg _ hn]
    simp [hgt, sentToClient, Socks5Error.code]
  | unknownAddrType rest =>
    have hc : ((greeted w request).consume .client rest).room .client = none := hgw
    -- the first of the two replies leaves room for the second
    have hc2 : ∀ buf n, (((greeted w request).consume .client rest).deliver .client buf n).room
        .client = none := by simp [World.deliver, roomLeft, hgw]
    simp only [hr, replied_of_none env hc, Task.andThen_ok, replied_of_none env (hc2 _ _)] at hn
    rw [run_handleClient_trace_err env debugLog cfg _ hn]
    simp [hgt, sentToClient, Socks5Error.code]
  | invalidName rest =>
    have hc : ((greeted w request).consume .client rest).room .client = none := hgw
    cases debugLog with
    -- `debug!` unwraps the error, which `hp` excludes
    | true =>
      rw [hr] at hn
      exact absurd (run_handleClient_panic takeExact env w true cfg (congrArg Prod.fst hn)) hp
    | false =>
      simp only [hr, Bool.false_eq_true, ↓reduceIte, replied_of_none env hc, Task.andThen_ok] at hn
      rw [run_handleClient_trace_err env false cfg _ hn]
      simp [hgt, sentToClient, Socks5Error.code]
  | connect dest port rest =>
    rw [hr] at hn
    have hf := fitsReply_of_connect hr ho
    obtain ⟨es, hrun, hes⟩ := run_handleClient_ok takeExact env w debugLog cfg hn
      (parsed_destination dest port) hf
    have hgw2 : (((greeted w request).consume .client rest).logs
        (tried env cfg (dest.parsed port))).room .client = none := hgw
    refine ⟨es, by rcases hes with rfl | ⟨rfl, -⟩ <;> simp, ?_⟩
    rw [wire, hrun, replyOut, written_of_none env hgw2]
    simp [hgt, sentToClient, finalReply]

end trace

section

variable (env : Env) (debugLog : Bool) (cfg : OutgoingConfig) (w : CutWire)

/-- The client gets the messages it is due, except that a request with an unknown address
type is answered twice. -/
theorem handleClient_answered_iff (hroom : w.room .client = none) (htrace : w.trace = [])
    (hp : (Task.run (cutWire env) (handleClient debugLog held cfg) w).1 ≠ .panic) :
    Answered cfg (joined (w.input .client))
      (Task.run (cutWire env) (handleClient debugLog held cfg) w).2.trace ↔
        ∀ request rest, readGreeting (joined (w.input .client)) = .accepted request →
          readRequest request ≠ .unknownAddrType rest := by
  rw [← run_cutWire_fst] at hp
  rw [← run_cutWire_trace]
  have hin : w.uncut.input .client = joined (w.input .client) := rfl
  have hn := run_nextRequest env debugLog w.uncut
  rw [run_authenticateClient, hin] at hn
  cases hg : readGreeting (joined (w.input .client)) with
  | truncated =>
    simp only [hg, Task.andThen_err] at hn
    rw [run_handleClient_trace_err env debugLog cfg _ hn]
    simp [Answered, hg, htrace]
  | notSocks5 p rest =>
    simp only [hg, Task.andThen_err] at hn
    rw [run_handleClient_trace_err env debugLog cfg _ hn]
    simp [Answered, hg, htrace]
  | noMethod rest =>
    have hc : (w.uncut.consume .client rest).room .client = none := hroom
    simp only [hg, written_of_none env hc, Task.andThen_ok, Task.andThen_err] at hn
    rw [run_handleClient_trace_err env debugLog cfg _ hn]
    simp [Answered, hg, htrace, sentToClient]
  | accepted request =>
    have ht := handleClient_trace_accepted env debugLog cfg w.uncut hroom htrace hg hp
    have hreq : (∀ request' rest, Greeting.accepted request = .accepted request' →
        readRequest request' ≠ .unknownAddrType rest) ↔
          ∀ rest, readRequest request ≠ .unknownAddrType rest := by
      refine ⟨fun h rest => h request rest rfl, ?_⟩
      rintro h _ rest ⟨⟩
      exact h rest
    rw [hreq]
    simp only [Answered, hg]
    cases hr : readRequest request with
    | truncated | notSocks5 =>
      simp only [hr] at ht
      exact iff_of_true ht (by simp)
    | otherCommand | invalidName =>
      simp only [hr] at ht
      exact iff_of_true ⟨_, _, ht⟩ (by simp)
    | unknownAddrType rest =>
      simp only [hr] at ht
      -- the one kind of request where the code sends a message too many
      refine iff_of_false ?_ (fun h => h rest rfl)
      simp only [ht]
      rintro ⟨dest, port, h⟩
      have hbytes := (sent_injective .client).list_map h
      exact two_replies_ne _ _ _ _ _ _ (List.append_cancel_left hbytes)
    | connect dest port rest =>
      simp only [hr] at ht
      obtain ⟨es, hes, htr⟩ := ht
      exact iff_of_true ⟨_, _, _, _, _, htr, tried_spec env cfg _, hes⟩ (by simp)

theorem handleClient_answered_v6 :
    Answered ⟨.direct⟩ (encodeHello [0] 0 (.v6 ⟨0, 0, 0, 0, 0, 0, 0, 1⟩) 80)
      (Task.run (cutWire default) (handleClient false held ⟨.direct⟩)
        (.sending (encodeHello [0] 0 (.v6 ⟨0, 0, 0, 0, 0, 0, 0, 1⟩) 80))).2.trace := by
  have h := (handleClient_answered_iff default false ⟨.direct⟩
    (.sending (encodeHello [0] 0 (.v6 ⟨0, 0, 0, 0, 0, 0, 0, 1⟩) 80)) rfl rfl (by decide +kernel)).mpr
  rw [CutWire.joined_sending] at h
  apply h
  intro request rest hg hr
  have hg' := readGreeting_encode [0]
    (encodeRequest 0 (.v6 ⟨0, 0, 0, 0, 0, 0, 0, 1⟩) 80) (by simp) (by simp)
  obtain rfl : encodeRequest 0 (.v6 ⟨0, 0, 0, 0, 0, 0, 0, 1⟩) 80 = request :=
    Greeting.accepted.inj (hg'.symm.trans hg)
  have hr' := readRequest_encode 0 (.v6 ⟨0, 0, 0, 0, 0, 0, 0, 1⟩) 80 []
  rw [List.append_nil, hr] at hr'
  cases hr'

/-- Address type 9 gets two replies with code 8. -/
theorem unknown_addr_type_answered_twice :
    (Task.run (cutWire default) (handleClient false held ⟨.direct⟩)
      (.sending [5, 1, 0, 5, 1, 0, 9, 0])).1 ≠ .panic ∧
    ¬Answered ⟨.direct⟩ [5, 1, 0, 5, 1, 0, 9, 0]
      (Task.run (cutWire default) (handleClient false held ⟨.direct⟩)
        (.sending [5, 1, 0, 5, 1, 0, 9, 0])).2.trace := by
  have ht : (Task.run (cutWire default) (handleClient false held ⟨.direct⟩)
      (.sending [5, 1, 0, 5, 1, 0, 9, 0])).2.trace = sentToClient ([5, 0] ++
        (encodeReply 8 (.v4 ⟨127, 0, 0, 1⟩) 0 ++ encodeReply 8 (.v4 ⟨127, 0, 0, 1⟩) 0)) := by
    decide +kernel
  refine ⟨by decide +kernel, ?_⟩
  rintro ⟨dest, port, h⟩
  have hbytes := (sent_injective .client).list_map (ht.symm.trans h)
  exact two_replies_ne _ _ _ _ _ _ (List.append_cancel_left hbytes)

end

end Rocks
