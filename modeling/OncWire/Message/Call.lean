import OncWire.Message.Credential

/-!
# Calls

The header of a call: a number that the reply will repeat, the direction, the
procedure that is called and the caller's credentials.  The arguments of the
procedure follow the header and are no part of it.
-/

namespace OncWire

/-- The version of the call protocol. -/
def rpcVersion : UInt32 := 2

/-- Which procedure is called, and by whom. -/
structure CallBody where
  /-- The version of the call protocol. -/
  rpcvers : UInt32
  /-- The program. -/
  prog : UInt32
  /-- The version of the program. -/
  vers : UInt32
  /-- The procedure of the program. -/
  proc : UInt32
  /-- The caller's credential. -/
  cred : OpaqueAuth
  /-- The verifier of the credential. -/
  verf : OpaqueAuth
  deriving DecidableEq, Repr

instance : Wire CallBody where
  shape := .record "CallBody" (.fields [.uint32, .uint32, .uint32, .uint32,
    Wire.shape OpaqueAuth, Wire.shape OpaqueAuth])
  toVal b := (b.rpcvers, b.prog, b.vers, b.proc, Wire.toVal b.cred, Wire.toVal b.verf, ())
  ofVal := fun (rpcvers, prog, vers, proc, cred, verf, ()) =>
    ⟨rpcvers, prog, vers, proc, Wire.ofVal cred, Wire.ofVal verf⟩
  ofVal_toVal _ := rfl

namespace CallBody

/-- A call without credentials. -/
def new (prog vers proc : UInt32) : CallBody :=
  ⟨rpcVersion, prog, vers, proc, .none, .none⟩

/-- The same call with another credential. -/
def withCred (b : CallBody) (cred : OpaqueAuth) : CallBody := { b with cred }

/-- The same call with another verifier. -/
def withVerf (b : CallBody) (verf : OpaqueAuth) : CallBody := { b with verf }

/-- Whether the caller speaks the version of the protocol that is spoken here. -/
def versionMatches (b : CallBody) : Bool := b.rpcvers == rpcVersion

end CallBody

/-- The header of a call. -/
structure CallMessage where
  /-- The number that the reply repeats. -/
  xid : UInt32
  /-- The direction, which in a genuine call is that of a call. -/
  mtype : MsgType
  /-- Which procedure is called, and by whom. -/
  body : CallBody
  deriving DecidableEq, Repr

instance : Wire CallMessage where
  shape := .record "RpcMsgCall" (.fields [.uint32, .enumeration .msgType, Wire.shape CallBody])
  toVal m := (m.xid, m.mtype, Wire.toVal m.body, ())
  ofVal := fun (xid, mtype, body, ()) => ⟨xid, mtype, Wire.ofVal body⟩
  ofVal_toVal _ := rfl

/-- The header of a genuine call. -/
def CallMessage.new (xid : UInt32) (body : CallBody) : CallMessage := ⟨xid, .call, body⟩

end OncWire
