import OncWire.Message.Event
import OncWire.Wire

/-!
# Credentials

Every call and every accepted reply carries credentials: a flavor, and a body
of bytes that only that flavor can interpret.  Of the flavors the system flavor
is interpreted here: `OpaqueAuth.ofSysParms` wraps its parameters and
`OpaqueAuth.sysParms` opens them, both within the same limits.
-/

namespace OncWire

/-! ### Limits -/

/-- The greatest length of the body of a credential. -/
def maxAuthBytes : Nat := 400

/-- The greatest length of a machine name. -/
def maxMachineName : Nat := 255

/-- The greatest number of supplementary groups. -/
def maxAuthGids : Nat := 16

/-! ### Credentials and verifiers -/

/-- A credential or verifier, whose body is not interpreted. -/
structure OpaqueAuth where
  /-- How the body is to be understood. -/
  flavor : AuthFlavor
  /-- The body. -/
  body : Bytes
  deriving DecidableEq, Repr

instance : Wire OpaqueAuth where
  shape := .record "OpaqueAuth" (.fields [.enumeration .authFlavor, .bytes])
  toVal a := (a.flavor, a.body, ())
  ofVal := fun (flavor, body, ()) => ⟨flavor, body⟩
  ofVal_toVal _ := rfl

namespace OpaqueAuth

/-- The empty credential. -/
def none : OpaqueAuth := ⟨.none, []⟩

/-- The fault of a credential with too long a body. -/
def oversize? (a : OpaqueAuth) : Option Fault := Fault.ofLength? maxAuthBytes a.body.length

end OpaqueAuth

/-! ### The system flavor -/

/-- The parameters of a credential of the system flavor. -/
structure AuthSysParms where
  /-- A number of the caller's choice. -/
  stamp : UInt32
  /-- The name of the caller's machine. -/
  machineName : String
  /-- The user on whose behalf the call is made. -/
  uid : UInt32
  /-- The group of that user. -/
  gid : UInt32
  /-- Further groups of that user. -/
  gids : List UInt32
  deriving DecidableEq, Repr

instance : Wire AuthSysParms where
  shape := .record "AuthSysParms"
    (.fields [.uint32, .text, .uint32, .uint32, .seq .known .uint32])
  toVal p := (p.stamp, p.machineName, p.uid, p.gid, ⟨p.gids, .none⟩, ())
  ofVal := fun (stamp, machineName, uid, gid, gids, ()) =>
    ⟨stamp, machineName, uid, gid, gids.items⟩
  ofVal_toVal _ := rfl

/-- The fault of parameters above a limit: first of the machine name, then of the groups. -/
def AuthSysParms.oversize? (p : AuthSysParms) : Option Fault :=
  (Fault.ofLength? maxMachineName p.machineName.utf8ByteSize).orElse fun _ =>
    Fault.ofLength? maxAuthGids p.gids.length

namespace OpaqueAuth

/-- The credential that wraps the given parameters. -/
def ofSysParms (p : AuthSysParms) : Except Fault OpaqueAuth := do
  if let some f := p.oversize? then
    throw f
  let auth : OpaqueAuth := ⟨.sys, ← (Wire.encode p).toExcept⟩
  if let some f := auth.oversize? then
    throw f
  return auth

/-- The parameters that make up a whole body. -/
def sysParmsOfBody (body : Bytes) : Except Fault AuthSysParms :=
  match Wire.decode (α := AuthSysParms) .none body with
  | .error f _ => .error f
  | .ok p rest =>
    if rest = [] then
      match p.oversize? with
      | some f => .error f
      | .none => .ok p
    else .error (.trailingBytes rest.length)

/-- The parameters that a credential wraps. -/
def sysParms (a : OpaqueAuth) : Traced (Except Fault AuthSysParms) :=
  if a.flavor = .sys then ⟨[], sysParmsOfBody a.body⟩
  else ⟨[.notAuthSys a.flavor], .error (.unexpectedFlavor .sys a.flavor)⟩

end OpaqueAuth

end OncWire
