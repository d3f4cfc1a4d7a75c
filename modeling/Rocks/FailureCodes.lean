import Rocks.FinalReply

/-! Which reply code each failure of the outgoing side becomes, on Linux. -/
namespace Rocks
open Async Buffer Bytes Segments
open Socks5Connected ClientM

/-! Linux error numbers. -/

def enetunreach : Int32 := 101
def etimedout : Int32 := 110
def ehostunreach : Int32 := 113

/-- The ways in which the outgoing side can fail. -/
inductive Failure
  | unsupportedType
  | resolver (e : IoError)
  | noAddress
  | connect (e : IoError)

def connectFailure (env : Env) (addr : SocketAddr) : Option Failure :=
  match env.connect addr with
  | .error e => some (.connect e)
  | .ok () => none

def failure (env : Env) (cfg : OutgoingConfig) (req : ReqAddr) : Option Failure :=
  if cfg.type ≠ .direct then some .unsupportedType
  else match req with
    | .ip addr => connectFailure env addr
    | .domain name port =>
      match env.resolver name port with
      | .error e => some (.resolver e)
      | .ok [] => some .noAddress
      | .ok (addr :: _) => connectFailure env (.new addr.ip port)

/-- The reply code has the meaning of the failure. -/
structure Failure.Means (f : Failure) (rep : UInt8) : Prop where
  refused : rep = 5 ↔ ∃ e, f = .connect e ∧ e.kind = .connectionRefused
  network : rep = 3 ↔ ∃ e, f = .connect e ∧ e.rawOsError = some enetunreach
  host : rep = 4 ↔ (∃ e, f = .resolver e) ∨ f = .noAddress ∨
    ∃ e, f = .connect e ∧ e.rawOsError = some ehostunreach
  timedOut : rep = 6 ↔ ∃ e, f = .connect e ∧ e.rawOsError = some etimedout
  general : rep = 1 ↔ f = .unsupportedType ∨ ∃ e, f = .connect e ∧ e.kind ≠ .connectionRefused ∧
    e.rawOsError ≠ some enetunreach ∧ e.rawOsError ≠ some ehostunreach ∧
      e.rawOsError ≠ some etimedout
  failed : rep ≠ 0

/-- The code that is sent for a failure. -/
def Failure.sent : Failure → Socks5Error
  | unsupportedType => .generalProxyFailure
  | resolver _ => .hostUnreachable
  | noAddress => .hostUnreachable
  | connect e => getReason (connectError e)

theorem encodeReply_code_inj {rep rep' : UInt8} {dest dest' : Destination} {port port' : UInt16}
    (h : encodeReply rep dest port = encodeReply rep' dest' port') : rep = rep' := by
  simp only [encodeReply, List.cons_append, List.cons.injEq] at h
  exact h.2.1

theorem reason_eq_sent (env : Env) (cfg : OutgoingConfig) (req : ReqAddr) (f : Failure)
    (hf : failure env cfg req = some f) : reason env cfg req = f.sent := by
  obtain ⟨type⟩ := cfg
  cases type with
  | rocks | ignore =>
    obtain rfl : Failure.unsupportedType = f := by simpa [failure] using hf
    rfl
  | direct =>
    have hconnect : ∀ addr, connectFailure env addr = some f → resolution env req = .ok addr →
        reason env ⟨.direct⟩ req = f.sent := by
      intro addr hc hr
      unfold connectFailure at hc
      cases he : env.connect addr with
      | ok => simp [he] at hc
      | error e =>
        obtain rfl : Failure.connect e = f := by simpa [he] using hc
        simp [reason, outcome, getOutgoing, dialled, hr, he, Failure.sent]
    cases req with
    | ip addr => exact hconnect addr (by simpa [failure] using hf) rfl
    | domain name port =>
      cases hs : env.resolver name port with
      | error e =>
        obtain rfl : Failure.resolver e = f := by simpa [failure, hs] using hf
        simp [reason, outcome, getOutgoing, dialled, resolution, hs, Failure.sent, getReason]
      | ok sas =>
        cases sas with
        | nil =>
          obtain rfl : Failure.noAddress = f := by simpa [failure, hs] using hf
          simp [reason, outcome, getOutgoing, dialled, resolution, hs, Failure.sent, getReason]
        | cons addr sas =>
          exact hconnect (.new addr.ip port) (by simpa [failure, hs] using hf) (by
            simp [resolution, hs])

/-- The constants for an unreachable host and a timeout are swapped in `network_errors`. -/
theorem sent_means_iff (f : Failure) :
    f.Means f.sent.code ↔
      ∀ e, f = .connect e → e.rawOsError ≠ some etimedout ∧ e.rawOsError ≠ some ehostunreach := by
  cases f with
  | unsupportedType =>
    refine iff_of_true ?_ (by simp)
    constructor <;> simp [Failure.sent, Socks5Error.code]
  | resolver | noAddress =>
    refine iff_of_true ?_ (by simp)
    constructor <;> simp [Failure.sent, Socks5Error.code]
  | connect e =>
    -- the cases stand in the order of the tests in `connectError`
    by_cases hk : e.kind = .connectionRefused
    · -- std derives the kind from the code, so a refusal carries none of the other codes
      have hraw : ∀ c, c ≠ econnrefused → e.rawOsError ≠ some c :=
        fun c hc h => hc ((e.refused_iff c h).mp hk)
      have h3 := hraw enetunreach (by decide)
      have h4 := hraw ehostunreach (by decide)
      have h6 := hraw etimedout (by decide)
      refine iff_of_true ?_ (by simp [h4, h6])
      constructor <;> simp [Failure.sent, connectError, getReason, Socks5Error.code, hk, h3, h4, h6]
    by_cases h3 : e.rawOsError = some enetunreach
    · refine iff_of_true ?_ (by simp [h3, enetunreach, etimedout, ehostunreach])
      constructor <;> simp [Failure.sent, connectError, getReason, Socks5Error.code, hk, h3,
        NetworkErrors.networkUnreachable, enetunreach, etimedout, ehostunreach]
    by_cases h6 : e.rawOsError = some etimedout
    · refine iff_of_false ?_ (fun h => (h e rfl).1 h6)
      intro hm
      have hcode : (Failure.connect e).sent.code = 4 := by
        simp [Failure.sent, connectError, getReason, Socks5Error.code, hk, h6,
          NetworkErrors.networkUnreachable, NetworkErrors.hostUnreachable, etimedout]
      -- `HOST_UNREACHABLE` is 110, which is `ETIMEDOUT`
      have h := hm.timedOut.mpr ⟨e, rfl, h6⟩
      rw [hcode] at h
      exact absurd h (by decide)
    by_cases h4 : e.rawOsError = some ehostunreach
    · refine iff_of_false ?_ (fun h => (h e rfl).2 h4)
      intro hm
      have hcode : (Failure.connect e).sent.code = 6 := by
        simp [Failure.sent, connectError, getReason, Socks5Error.code, hk, h4,
          NetworkErrors.networkUnreachable, NetworkErrors.hostUnreachable, NetworkErrors.ttlExpired,
          ehostunreach]
      -- `TTL_EXPIRED` is 113, which is `EHOSTUNREACH`
      have h := hm.host.mpr (Or.inr (Or.inr ⟨e, rfl, h4⟩))
      rw [hcode] at h
      exact absurd h (by decide)
    · refine iff_of_true ?_ (by simp [h4, h6])
      have hg : connectError e = .generalFailure (.io e) := by
        simp only [enetunreach, etimedout, ehostunreach] at h3 h4 h6
        simp [connectError, hk, h3, h4, h6, NetworkErrors.networkUnreachable,
          NetworkErrors.hostUnreachable, NetworkErrors.ttlExpired]
      constructor <;> simp [Failure.sent, hg, getReason, Socks5Error.code, hk, h3, h4, h6]

section

variable (env : Env) (debugLog : Bool) (cfg : OutgoingConfig) (w : CutWire)

/-- The code in the final reply means what went wrong, unless connecting failed with
`ETIMEDOUT` or `EHOSTUNREACH`. -/
theorem handleClient_code_means_iff {req : ReqAddr} {self : Socks5Connected} {w1 : CutWire}
    (hn : Task.run (cutWire env) ((nextRequest debugLog).run held) w = (.ok (req, self), w1))
    (hroom : w.room .client = none) (htrace : w.trace = []) {f : Failure}
    (hf : failure env cfg req = some f) :
    (∃ rep dest port, sentTo .client (Task.run (cutWire env) (handleClient debugLog held cfg) w).2.trace =
      [5, 0] ++ encodeReply rep dest port ∧ f.Means rep) ↔
        ∀ e, f = .connect e → e.rawOsError ≠ some etimedout ∧ e.rawOsError ≠ some ehostunreach := by
  obtain ⟨dest, hsent⟩ := handleClient_sentTo_client env debugLog cfg w hn hroom htrace
  rw [← sent_means_iff f, hsent, reason_eq_sent env cfg req f hf]
  constructor
  · rintro ⟨rep, dest', port', h, hm⟩
    rwa [encodeReply_code_inj (List.append_cancel_left h)]
  · intro hm
    exact ⟨_, _, _, rfl, hm⟩

/-- `ECONNREFUSED` as `connect` reports it. -/
def refused : IoError :=
  ⟨.connectionRefused, some econnrefused, "Connection refused", by
    intro c h
    obtain rfl := Option.some.inj h
    decide⟩

/-- A refused connection is reported as such. -/
theorem handleClient_code_means_refused :
    ∃ dest port, sentTo .client (Task.run
        (cutWire { (default : Env) with connect := fun _ => .error refused })
        (handleClient false held ⟨.direct⟩)
        (.sending (encodeHello [0] 0 (.v4 ⟨10, 0, 0, 1⟩) 80))).2.trace =
      [5, 0] ++ encodeReply 5 dest port ∧ (Failure.connect refused).Means 5 := by
  have hrun : (Task.run (cutWire { (default : Env) with connect := fun _ => .error refused })
      ((nextRequest false).run held) (.sending (encodeHello [0] 0 (.v4 ⟨10, 0, 0, 1⟩) 80))).1 =
        .ok (.ip (.v4 ⟨10, 0, 0, 1⟩ 256), held) := by decide +kernel
  have hsent : sentTo .client (Task.run (cutWire { (default : Env) with connect := fun _ => .error refused })
      (handleClient false held ⟨.direct⟩) (.sending (encodeHello [0] 0 (.v4 ⟨10, 0, 0, 1⟩) 80))).2.trace =
        [5, 0] ++ encodeReply 5 (.v4 ⟨10, 0, 0, 1⟩) 256 := by decide +kernel
  have hother : ∀ e, Failure.connect refused = .connect e →
      e.rawOsError ≠ some etimedout ∧ e.rawOsError ≠ some ehostunreach := by
    intro e he
    obtain rfl := Failure.connect.inj he
    decide
  obtain ⟨rep, dest, port, h, hm⟩ := (handleClient_code_means_iff _ false ⟨.direct⟩ _
    (Task.eq_of_fst hrun) rfl rfl (f := .connect refused) rfl).mpr hother
  rw [hsent] at h
  obtain rfl := encodeReply_code_inj (List.append_cancel_left h)
  exact ⟨_, _, hsent, hm⟩

/-- `ETIMEDOUT` as `connect` reports it. -/
def timeout : IoError :=
  ⟨.timedOut, some etimedout, "Connection timed out", by
    intro c h
    obtain rfl := Option.some.inj h
    decide⟩

/-- A timeout is reported as an unreachable host. -/
theorem timeout_reported_as_unreachable :
    ¬∃ rep dest port, sentTo .client (Task.run
        (cutWire { (default : Env) with connect := fun _ => .error timeout })
        (handleClient false held ⟨.direct⟩)
        (.sending (encodeHello [0] 0 (.v4 ⟨10, 0, 0, 1⟩) 80))).2.trace =
      [5, 0] ++ encodeReply rep dest port ∧ (Failure.connect timeout).Means rep := by
  have ht : sentTo .client (Task.run (cutWire { (default : Env) with connect := fun _ => .error timeout })
      (handleClient false held ⟨.direct⟩) (.sending (encodeHello [0] 0 (.v4 ⟨10, 0, 0, 1⟩) 80))).2.trace =
        [5, 0] ++ encodeReply 4 (.v4 ⟨10, 0, 0, 1⟩) 256 := by decide +kernel
  rintro ⟨rep, dest, port, h, hm⟩
  rw [ht] at h
  have hrep := encodeReply_code_inj (List.append_cancel_left h)
  have h6 := hm.timedOut.mpr ⟨timeout, rfl, rfl⟩
  rw [← hrep] at h6
  exact absurd h6 (by decide)

end

end Rocks
