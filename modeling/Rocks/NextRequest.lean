import Rocks.RequestHandling

/-! `next_request`: which streams it accepts, what it makes of them, and which make it panic. -/
namespace Rocks
open Async Buffer Bytes Segments
open Socks5Connected ClientM

/-- Greeting and request as a client sends them. -/
def encodeHello (methods : List UInt8) (rsv : UInt8) (dest : Destination) (port : UInt16) : List UInt8 :=
  encodeGreeting methods ++ encodeRequest rsv dest port

/-- A name fits the request buffer together with its port. -/
def Destination.FitsRequest : Destination → Prop
  | .domain name _ => (asBytes name).length ≤ 253
  | _ => True

/-- `parse_address_v4` takes the port from the last address byte and the high port byte. -/
def Destination.DecodesWith : Destination → UInt16 → Prop
  | .v4 ip, port => be16 port = [ip.d, ip.d]
  | .v6 _, _ => True
  | .domain name _, _ => (asBytes name).length ≤ 253

theorem parsed_eq_reqAddr_iff (dest : Destination) (port : UInt16) (h : dest.FitsRequest) :
    dest.parsed port = dest.reqAddr port ↔ dest.DecodesWith port := by
  cases dest with
  | v4 ip =>
    simp only [Destination.parsed, Destination.reqAddr, Destination.DecodesWith, ReqAddr.ip.injEq,
      SocketAddr.v4.injEq, true_and]
    constructor
    · intro hp
      -- the port that is decoded has the last address byte and the high port byte
      have hb := be16_word ip.d (port >>> 8).toUInt8
      rw [hp] at hb
      have hh : (port >>> 8).toUInt8 = ip.d := (List.cons.inj hb).1
      rw [hb, hh]
    · intro hp
      have hh : (port >>> 8).toUInt8 = ip.d := (List.cons.inj hp).1
      have hl : port.toUInt8 = ip.d := (List.cons.inj (List.cons.inj hp).2).1
      have hw := word_be16 port
      rw [hh, hl] at hw
      rw [hh, hw]
  | v6 ip => exact iff_of_true rfl trivial
  | domain name _ => exact iff_of_true rfl h

theorem oversizedName_encode_iff (rsv : UInt8) (dest : Destination) (port : UInt16)
    (rest : List UInt8) :
    OversizedName (encodeRequest rsv dest port ++ rest) ↔ ¬dest.FitsRequest := by
  cases dest with
  | v4 ip => simp [OversizedName, encodeRequest, Destination.encode, Destination.FitsRequest]
  | v6 ip => simp [OversizedName, encodeRequest, Destination.encode, Destination.FitsRequest]
  | domain name h =>
    have hn := toUInt8_toNat h
    have hbs : encodeRequest rsv (.domain name h) port ++ rest =
        5 :: 1 :: rsv :: 3 :: (asBytes name).length.toUInt8 :: (asBytes name ++ be16 port ++ rest) := by
      simp [encodeRequest, Destination.encode]
    simp only [OversizedName, hbs, List.cons.injEq, true_and, Destination.FitsRequest]
    constructor
    · rintro ⟨_, len, _, ⟨-, hlen, -⟩, hl⟩
      rw [← hlen, hn] at hl
      omega
    · intro hl
      exact ⟨rsv, _, _, ⟨rfl, rfl, rfl⟩, by omega⟩

section

variable (env : Env) (debugLog : Bool) (w : Wire)

/-- The client after its greeting has been answered. -/
def greeted (rest : List UInt8) : Wire := (w.consume .client rest).deliver .client [5, 0] 2

@[simp] theorem greeted_input (rest : List UInt8) : (greeted w rest).input .client = rest := by
  simp [greeted]

theorem run_nextRequest :
    Task.run (wire env) ((nextRequest debugLog).run held) w =
      Task.andThen (Task.run (wire env) (authenticateClient.run held) w)
        (fun p w => Task.run (wire env) ((getRequest debugLog).run p.2) w) := by
  simp [nextRequest]

theorem run_nextRequest_accepted (rest : List UInt8)
    (hg : readGreeting (w.input .client) = .accepted rest)
    (hroom : accepted (w.room .client) 2 = 2) :
    Task.run (wire env) ((nextRequest debugLog).run held) w =
      Task.run (wire env) ((getRequest debugLog).run held) (greeted w rest) := by
  rw [run_nextRequest, run_authenticateClient, hg]
  simp [written, hroom, greeted]

theorem run_getRequest_eq_ok {r : ReqAddr} {self : Socks5Connected} {w' : Wire}
    (h : Task.run (wire env) ((getRequest debugLog).run held) w = (.ok (r, self), w')) :
    ∃ dest port rest, readRequest (w.input .client) = .connect dest port rest ∧
      ¬OversizedName (w.input .client) ∧
        r = dest.parsed port ∧ self = held ∧ w' = w.consume .client rest := by
  by_cases ho : OversizedName (w.input .client)
  · have hp := run_getRequest_oversized env w debugLog ho
    rw [h] at hp
    cases hp
  rw [run_getRequest env w debugLog ho] at h
  cases hr : readRequest (w.input .client) with
  | connect dest port rest =>
    simp only [hr, Prod.mk.injEq, Outcome.ok.injEq] at h
    obtain ⟨⟨rfl, rfl⟩, rfl⟩ := h
    exact ⟨dest, port, rest, rfl, ho, rfl, rfl, rfl⟩
  | truncated => simp [hr] at h
  | notSocks5 p rest => simp [hr] at h
  | otherCommand rest => simp [hr, Task.andThen_eq_ok_iff] at h
  | unknownAddrType rest => simp [hr, Task.andThen_eq_ok_iff] at h
  | invalidName rest => cases debugLog <;> simp [hr, Task.andThen_eq_ok_iff] at h

theorem run_nextRequest_eq_ok {r : ReqAddr} {self : Socks5Connected} {w' : Wire}
    (h : Task.run (wire env) ((nextRequest debugLog).run held) w = (.ok (r, self), w')) :
    ∃ rest dest port rest', readGreeting (w.input .client) = .accepted rest ∧
      accepted (w.room .client) 2 = 2 ∧ readRequest rest = .connect dest port rest' ∧
        ¬OversizedName rest ∧ r = dest.parsed port ∧ self = held ∧
          w' = (greeted w rest).consume .client rest' := by
  rw [run_nextRequest, run_authenticateClient] at h
  cases hg : readGreeting (w.input .client) with
  | truncated => simp [hg] at h
  | notSocks5 p rest => simp [hg] at h
  | noMethod rest => simp [hg, Task.andThen_eq_ok_iff] at h
  | accepted rest =>
    simp only [hg, Task.andThen_andThen, Task.andThen_ok, Task.andThen_eq_ok_iff] at h
    obtain ⟨_, w1, hw, hreq⟩ := h
    obtain ⟨hroom, rfl⟩ := (written_eq_ok_iff env _ _ _).mp hw
    obtain ⟨dest, port, rest', hr, ho, hres⟩ := run_getRequest_eq_ok env debugLog _ hreq
    rw [World.deliver_input, World.consume_input_self] at hr ho
    exact ⟨rest, dest, port, rest', rfl, hroom, hr, ho, hres⟩

theorem run_getRequest_panic_iff :
    (Task.run (wire env) ((getRequest debugLog).run held) w).1 = .panic ↔
      OversizedName (w.input .client) ∨
        debugLog = true ∧ ∃ rest, readRequest (w.input .client) = .invalidName rest := by
  by_cases ho : OversizedName (w.input .client)
  · exact iff_of_true (run_getRequest_oversized env w debugLog ho) (Or.inl ho)
  have hrep : ∀ (w : Wire) (err : Socks5Error), (replied env w err).1 ≠ .panic :=
    fun w err => written_ne_panic env w _
  rw [run_getRequest env w debugLog ho]
  cases readRequest (w.input .client) with
  | truncated => simp [ho]
  | notSocks5 p rest => simp [ho]
  | otherCommand rest => simp [ho, Task.andThen_fst_eq_panic_iff, hrep]
  | unknownAddrType rest => simp [ho, Task.andThen_fst_eq_panic_iff, hrep]
  | invalidName rest => cases debugLog <;> simp [ho, Task.andThen_fst_eq_panic_iff, hrep]
  | connect dest port rest => simp [ho]

/-- A stream that makes `next_request` panic, if the socket takes the greeting's answer. -/
def Panicking (bs : List UInt8) : Prop :=
  ∃ request, readGreeting bs = .accepted request ∧
    (OversizedName request ∨ debugLog = true ∧ ∃ rest, readRequest request = .invalidName rest)

theorem run_nextRequest_panic_iff :
    (Task.run (wire env) ((nextRequest debugLog).run held) w).1 = .panic ↔
      accepted (w.room .client) 2 = 2 ∧ Panicking debugLog (w.input .client) := by
  -- no panic comes before the request: a greeting ends in a value or in `Err`
  by_cases hg : ∃ rest, readGreeting (w.input .client) = .accepted rest
  · obtain ⟨rest, hg⟩ := hg
    by_cases hroom : accepted (w.room .client) 2 = 2
    · rw [run_nextRequest_accepted env debugLog w rest hg hroom, run_getRequest_panic_iff,
        greeted_input]
      simp [Panicking, hg, hroom]
    · rw [run_nextRequest, run_authenticateClient, hg]
      simp [written, hroom]
  · have hp : ¬Panicking debugLog (w.input .client) := by
      rintro ⟨rest, h, -⟩
      exact hg ⟨rest, h⟩
    have hwr : ∀ (w : Wire) (buf : List UInt8), (written env w buf).1 ≠ .panic :=
      fun w buf => written_ne_panic env w buf
    rw [run_nextRequest, run_authenticateClient]
    cases hr : readGreeting (w.input .client) with
    | accepted rest => exact absurd ⟨rest, hr⟩ hg
    | truncated => simp [hp]
    | notSocks5 p rest => simp [hp]
    | noMethod rest => simp [hp, Task.andThen_fst_eq_panic_iff, hwr]

/-- On an encoded request that fits the buffer. -/
theorem run_nextRequest_encode {methods : List UInt8} (h0 : 0 ∈ methods) (hl : methods.length ≤ 255)
    (rsv : UInt8) {dest : Destination} (hf : dest.FitsRequest) (port : UInt16) (payload : List UInt8)
    (hw : w.input .client = encodeHello methods rsv dest port ++ payload)
    (hroom : accepted (w.room .client) 2 = 2) :
    Task.run (wire env) ((nextRequest debugLog).run held) w =
      (.ok (dest.parsed port, held),
        (greeted w (encodeRequest rsv dest port ++ payload)).consume .client payload) := by
  have hg : readGreeting (w.input .client) = .accepted (encodeRequest rsv dest port ++ payload) := by
    rw [hw, encodeHello, List.append_assoc]
    exact readGreeting_encode methods _ h0 hl
  have ho : ¬OversizedName (encodeRequest rsv dest port ++ payload) := by
    rw [oversizedName_encode_iff]
    exact not_not.mpr hf
  rw [run_nextRequest_accepted env debugLog w _ hg hroom,
    run_getRequest env _ debugLog (by rw [greeted_input]; exact ho), greeted_input,
    readRequest_encode]

end

section claims

variable (env : Env) (debugLog : Bool) (w : CutWire)

/-- However the stream is cut, a request comes back as it was encoded only if its port can
be read off the bytes `parse_address_v4` looks at, or its name fits the buffer. -/
theorem nextRequest_decodes_iff (methods : List UInt8) (h0 : 0 ∈ methods)
    (hl : methods.length ≤ 255) (rsv : UInt8) (dest : Destination) (port : UInt16)
    (payload : List UInt8)
    (hw : joined (w.input .client) = encodeHello methods rsv dest port ++ payload)
    (hroom : accepted (w.room .client) 2 = 2) :
    (∃ self, (Task.run (cutWire env) ((nextRequest debugLog).run held) w).1 =
      .ok (dest.reqAddr port, self)) ↔ dest.DecodesWith port := by
  have hcut := run_cutWire_fst env ((nextRequest debugLog).run held) w
  by_cases hf : dest.FitsRequest
  · rw [run_nextRequest_encode env debugLog w.uncut h0 hl rsv hf port payload hw hroom] at hcut
    rw [← hcut, ← parsed_eq_reqAddr_iff dest port hf]
    simp
  · have hg : readGreeting (w.uncut.input .client) =
        .accepted (encodeRequest rsv dest port ++ payload) := by
      have hin : w.uncut.input .client = joined (w.input .client) := rfl
      rw [hin, hw, encodeHello, List.append_assoc]
      exact readGreeting_encode methods _ h0 hl
    have hp : (Task.run (wire env) ((nextRequest debugLog).run held) w.uncut).1 = .panic :=
      (run_nextRequest_panic_iff env debugLog w.uncut).mpr
        ⟨hroom, _, hg, Or.inl ((oversizedName_encode_iff rsv dest port payload).mpr hf)⟩
    have hd : ¬dest.DecodesWith port := by
      cases dest with
      | v4 | v6 => exact absurd trivial hf
      | domain name _ => exact hf
    rw [← hcut, hp]
    simp [hd]

theorem nextRequest_decodes_domain :
    ∃ self, (Task.run (cutWire default) ((nextRequest true).run held)
      (.sending (encodeHello [2, 0] 0 (.domain "a.b" (by decide)) 443))).1 =
        .ok (.domain "a.b" 443, self) :=
  (nextRequest_decodes_iff default true _ [2, 0] (by decide) (by decide) 0
    (.domain "a.b" (by decide)) 443 [] (CutWire.joined_sending _) rfl).mpr (by
      simp only [Destination.DecodesWith]
      decide)

/-- `127.0.0.1:80` comes back as `127.0.0.1:256`. -/
theorem nextRequest_loopback_port :
    (Task.run (cutWire default) ((nextRequest false).run held)
      (.sending (encodeHello [0] 0 (.v4 ⟨127, 0, 0, 1⟩) 80))).1 =
        .ok ((Destination.v4 ⟨127, 0, 0, 1⟩).reqAddr 256, held) ∧
      (Destination.v4 ⟨127, 0, 0, 1⟩).reqAddr 256 ≠ (Destination.v4 ⟨127, 0, 0, 1⟩).reqAddr 80 :=
  ⟨by decide +kernel, by decide⟩

/-- `next_request` panics on exactly the streams of `Panicking`. -/
theorem nextRequest_ne_panic_iff :
    (Task.run (cutWire env) ((nextRequest debugLog).run held) w).1 ≠ .panic ↔
      ¬(accepted (w.room .client) 2 = 2 ∧ Panicking debugLog (joined (w.input .client))) := by
  have hcut := run_cutWire_fst env ((nextRequest debugLog).run held) w
  have hp := run_nextRequest_panic_iff env debugLog w.uncut
  simp only [hcut, CutWire.uncut_input, CutWire.uncut_room] at hp
  exact not_congr hp

/-- A name length of 254 is enough, with no name behind it. -/
theorem nextRequest_panics_on_length :
    (Task.run (cutWire default) ((nextRequest false).run held)
      (.sending [5, 1, 0, 5, 1, 0, 3, 254])).1 = .panic := by
  decide +kernel

/-- What `next_request` accepts is one greeting and one request, of which the request names
the host that it returns. Nothing beyond them is read, so nothing beyond them matters. -/
theorem nextRequest_eq_ok {r : ReqAddr} {self : Socks5Connected} {w' : CutWire}
    (h : Task.run (cutWire env) ((nextRequest debugLog).run held) w = (.ok (r, self), w')) :
    ∃ methods rsv dest port port', 0 ∈ methods ∧ methods.length ≤ 255 ∧
      joined (w.input .client) = encodeHello methods rsv dest port ++ joined (w'.input .client) ∧
      r = dest.reqAddr port' ∧ self = held ∧
      w'.trace = w.trace ++ [.sent .client 5, .sent .client 0] ∧
      joined (w'.input .remote) = joined (w.input .remote) ∧
      ∀ (env : Env) (debugLog : Bool) (w : CutWire) (rest : List UInt8),
        joined (w.input .client) = encodeHello methods rsv dest port ++ rest →
        accepted (w.room .client) 2 = 2 →
        ∃ w', Task.run (cutWire env) ((nextRequest debugLog).run held) w = (.ok (r, self), w') ∧
          joined (w'.input .client) = rest := by
  have hcut := run_cutWire env ((nextRequest debugLog).run held) w
  rw [h] at hcut
  obtain ⟨rest, dest, port, rest', hg, -, hr, ho, rfl, rfl, hw'⟩ :=
    run_nextRequest_eq_ok env debugLog w.uncut hcut
  obtain ⟨methods, h0, hl, hbs⟩ := readGreeting_eq_accepted hg
  obtain ⟨rsv, rfl⟩ := readRequest_eq_connect hr
  -- a name that does not fit would have made the run panic
  have hf : dest.FitsRequest := by
    by_contra hn
    exact ho ((oversizedName_encode_iff rsv dest port rest').mpr hn)
  have hclient : joined (w'.input .client) = rest' := by
    have hin := congrArg (fun w : Wire => w.input .client) hw'
    simpa using hin
  have hremote : joined (w'.input .remote) = joined (w.input .remote) := by
    have hin := congrArg (fun w : Wire => w.input .remote) hw'
    simpa [greeted, World.consume] using hin
  have htrace : w'.trace = w.trace ++ [.sent .client 5, .sent .client 0] := congrArg World.trace hw'
  refine ⟨methods, rsv, dest, port, (dest.parsed port).port, h0, hl, ?_, ?_, rfl, htrace, hremote, ?_⟩
  · rw [hclient, encodeHello, List.append_assoc]
    exact hbs
  · cases dest <;> rfl
  -- the same bytes under any other cut and any other tail
  · intro env debugLog w2 tail hw hroom
    have hrun := run_nextRequest_encode env debugLog w2.uncut h0 hl rsv hf port tail hw hroom
    rw [run_cutWire] at hrun
    obtain ⟨hres, hw2⟩ := Prod.mk.inj hrun
    generalize Task.run (cutWire env) ((nextRequest debugLog).run held) w2 = p at hres hw2
    obtain ⟨_, w2'⟩ := p
    subst hres
    have hin := congrArg (fun w : Wire => w.input .client) hw2
    exact ⟨w2', rfl, by simpa using hin⟩

theorem nextRequest_eq_ok_domain :
    ∃ methods rsv dest port, 0 ∈ methods ∧
      encodeHello [0] 0 (.domain "a.b" (by decide)) 443 ++ [22, 3] =
        encodeHello methods rsv dest port ++ joined ((Task.run (cutWire default)
          ((nextRequest false).run held) (.sending (encodeHello [0] 0 (.domain "a.b" (by decide))
            443 ++ [22, 3]))).2.input .client) := by
  have hrun : (Task.run (cutWire default) ((nextRequest false).run held) (.sending
      (encodeHello [0] 0 (.domain "a.b" (by decide)) 443 ++ [22, 3]))).1 =
        .ok (.domain "a.b" 443, held) := by decide +kernel
  obtain ⟨methods, rsv, dest, port, _, h0, -, hbs, -⟩ :=
    nextRequest_eq_ok default false _ (Task.eq_of_fst hrun)
  rw [CutWire.joined_sending] at hbs
  exact ⟨methods, rsv, dest, port, h0, hbs⟩

end claims

end Rocks
