import Rocks.Outgoing

/-! The configuration, and how `main` comes by its listener. -/
namespace Rocks
open Async

structure CfgAddr where
  ip : Option String
  domain : Option String
  port : UInt16
deriving DecidableEq

inductive IncomingType
  | socks5
  | rocks
  | deny
  | redirect
deriving DecidableEq, Repr

/-- `IncomingConfig`, of which nothing reads the user file and the keys. -/
structure IncomingConfig where
  type : IncomingType
  listenAddr : CfgAddr
deriving DecidableEq

structure RocksConfig where
  incoming : IncomingConfig
  outgoing : OutgoingConfig
deriving DecidableEq

/-- The errors on the way to the listener: those of requests, and `AddrParseError`. -/
inductive StartError
  | request (e : Error)
  | addr
deriving DecidableEq

/-- What `main` awaits before its loop. -/
inductive StartOp
  | toSocketAddrs (host : String)
  | bind (addr : SocketAddr)
deriving DecidableEq

@[reducible] def StartOp.Res : StartOp → Type
  | toSocketAddrs _ => Except IoError (List SocketAddr)
  | bind _ => Except IoError Unit

abbrev StartIo : Type → Type := Task StartOp StartOp.Res StartError

/-- `?` on an `io::Result`, before the loop. -/
def startOfIo {α : Type} : Except IoError α → Outcome StartError α
  | .ok a => .ok a
  | .error e => .err (.request (.io e))

/-- `CfgAddr::into_addr`. `parse` is `str::parse::<IpAddr>` of the standard library. -/
def CfgAddr.intoAddr (parse : String → Option IpAddr) : CfgAddr → StartIo SocketAddr
  | { ip := some ip, domain := _, port } =>
    match parse ip with
    | some ip => pure (.new ip port)
    | none => throw .addr
  | { ip := none, domain := some domain, port } => do
    let addrs ← startOfIo (← Task.perform (.toSocketAddrs s!"{domain}:{port}"))
    match addrs.head? with
    | some addr => pure addr
    | none => throw (.request (Error.fromDescription "invalid domain"))
  | _ => throw (.request (Error.fromDescription "invalid address in config"))

/-- `Socks5Incoming` -/
structure Socks5Incoming where
  listenAddr : SocketAddr
deriving DecidableEq

def Socks5Incoming.fromCfg (parse : String → Option IpAddr) (conf : CfgAddr) :
    StartIo Socks5Incoming := do
  let listenAddr ← conf.intoAddr parse
  let _ ← startOfIo (← Task.perform (.bind listenAddr))
  return ⟨listenAddr⟩

def getIncoming (parse : String → Option IpAddr) (conf : IncomingConfig) : StartIo Socks5Incoming :=
  match conf.type with
  | .socks5 => Socks5Incoming.fromCfg parse conf.listenAddr
  -- `Rocks`, `Deny` and `Redirect`
  | _ => throw (.request (Error.fromDescription "Unsupported incoming type"))

/-- What resolver and kernel answer before the loop, and the addresses bound so far. -/
structure StartEnv where
  resolver : String → Except IoError (List SocketAddr)
  bind : SocketAddr → Except IoError Unit

def StartEnv.handler (env : StartEnv) : (o : StartOp) → List SocketAddr → o.Res × List SocketAddr
  | .toSocketAddrs host, bound => (env.resolver host, bound)
  | .bind addr, bound => (env.bind addr, bound ++ [addr])

/-- The address that a configuration stands for: its IP address if it has one, whatever else it
has, and else the first address of its domain. -/
def CfgAddr.meant (parse : String → Option IpAddr) (env : StartEnv) (conf : CfgAddr) :
    Option SocketAddr :=
  match conf.ip, conf.domain with
  | some ip, _ => (parse ip).map (SocketAddr.new · conf.port)
  | none, some domain => match env.resolver s!"{domain}:{conf.port}" with
    | .ok addrs => addrs.head?
    | .error _ => none
  | none, none => none

section run

variable (parse : String → Option IpAddr) (env : StartEnv)

theorem run_intoAddr (conf : CfgAddr) (bound : List SocketAddr) :
    (Task.run env.handler (conf.intoAddr parse) bound).2 = bound ∧
      ∀ addr, (Task.run env.handler (conf.intoAddr parse) bound).1 = .ok addr ↔
        conf.meant parse env = some addr := by
  obtain ⟨ip, domain, port⟩ := conf
  match ip, domain with
  | some ip, domain => cases hp : parse ip <;> simp [CfgAddr.intoAddr, CfgAddr.meant, hp]
  | none, some domain =>
    have hr : env.handler (.toSocketAddrs s!"{domain}:{port}") bound =
        (env.resolver s!"{domain}:{port}", bound) := rfl
    cases hs : env.resolver s!"{domain}:{port}" with
    | error e => simp [CfgAddr.intoAddr, CfgAddr.meant, hr, hs, startOfIo]
    | ok addrs => cases addrs <;> simp [CfgAddr.intoAddr, CfgAddr.meant, hr, hs, startOfIo]
  | none, none => simp [CfgAddr.intoAddr, CfgAddr.meant]

/-- Only a SOCKS5 configuration with a meaning listens, and it binds nothing but its address. -/
theorem getIncoming_eq_ok_iff (conf : IncomingConfig) (bound : List SocketAddr)
    (incoming : Socks5Incoming) (bound' : List SocketAddr) :
    Task.run env.handler (getIncoming parse conf) bound = (.ok incoming, bound') ↔
      conf.type = .socks5 ∧ conf.listenAddr.meant parse env = some incoming.listenAddr ∧
        env.bind incoming.listenAddr = .ok () ∧ bound' = bound ++ [incoming.listenAddr] := by
  cases ht : conf.type with
  | rocks | deny | redirect => simp [getIncoming, ht]
  | socks5 =>
    obtain ⟨hsame, hok⟩ := run_intoAddr parse env conf.listenAddr bound
    cases hr : Task.run env.handler (conf.listenAddr.intoAddr parse) bound with
    | mk r s =>
      rw [hr] at hsame hok
      simp only at hsame hok
      subst hsame
      cases r with
      | err | panic =>
        have hn : conf.listenAddr.meant parse env ≠ some incoming.listenAddr :=
          fun h => nomatch (hok _).mpr h
        simp [getIncoming, ht, Socks5Incoming.fromCfg, hr, hn]
      | ok addr =>
        have hm := (hok addr).mp rfl
        have hb : env.handler (.bind addr) s = (env.bind addr, s ++ [addr]) := rfl
        obtain ⟨listenAddr⟩ := incoming
        cases hbind : env.bind addr with
        | error e =>
          have hn : addr = listenAddr → env.bind listenAddr ≠ .ok () := by
            rintro rfl h
            rw [hbind] at h
            cases h
          simp [getIncoming, ht, Socks5Incoming.fromCfg, hr, hb, hbind, startOfIo, hm]
          exact fun h h2 => absurd h2 (hn h)
        | ok u =>
          simp [getIncoming, ht, Socks5Incoming.fromCfg, hr, hb, hbind, startOfIo, hm]
          rintro rfl
          constructor
          · rintro rfl
            exact ⟨hbind, rfl⟩
          · rintro ⟨-, rfl⟩
            rfl

end run

end Rocks
