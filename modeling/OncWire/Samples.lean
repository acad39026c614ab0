import OncWire.Message.Credential

/-!
# Sample unions

Small unions that between them show every form an arm can take: a value,
nothing, a member of the enumeration that has no arm, and an arm of two values,
which can be written and not be read back.
-/

namespace OncWire

/-- A union with arms for two of the members of its enumeration. -/
inductive Outcome
  | done (n : UInt32)
  | garbage
  deriving DecidableEq, Repr

instance : Wire Outcome where
  shape := .union (.enumeration .acceptStat) fun
    | AcceptStat.success => .uint32
    | AcceptStat.garbageArgs => .void
    | stat => .unassigned (Enumerated.code stat) "Outcome"
  toVal
    | .done n => ⟨AcceptStat.success, n⟩
    | .garbage => ⟨AcceptStat.garbageArgs, ()⟩
  ofVal
    | ⟨AcceptStat.success, n⟩ => .done n
    | ⟨AcceptStat.garbageArgs, ()⟩ => .garbage
  ofVal_toVal a := by cases a <;> rfl

/-- A union of the credentials of three flavors. -/
inductive Creds
  | none
  | sys (parms : AuthSysParms)
  | gss (token : Bytes)
  deriving DecidableEq, Repr

instance : Wire Creds where
  shape := .union (.enumeration .authFlavor) fun
    | AuthFlavor.none => .void
    | AuthFlavor.sys => Wire.shape AuthSysParms
    | AuthFlavor.rpcsecGss => .bytes
    | flavor => .unassigned (Enumerated.code flavor) "Creds"
  toVal
    | .none => ⟨AuthFlavor.none, ()⟩
    | .sys parms => ⟨AuthFlavor.sys, Wire.toVal parms⟩
    | .gss token => ⟨AuthFlavor.rpcsecGss, token⟩
  ofVal
    | ⟨AuthFlavor.none, ()⟩ => .none
    | ⟨AuthFlavor.sys, parms⟩ => .sys (Wire.ofVal parms)
    | ⟨AuthFlavor.rpcsecGss, token⟩ => .gss token
  ofVal_toVal a := by cases a <;> rfl

/-- A union that is switched by a truth value. -/
inductive Switch
  | off
  | on (label : String)
  deriving DecidableEq, Repr

instance : Wire Switch where
  shape := .union .bool fun
    | false => .void
    | true => .text
  toVal
    | .off => ⟨false, ()⟩
    | .on label => ⟨true, label⟩
  ofVal
    | ⟨false, ()⟩ => .off
    | ⟨true, label⟩ => .on label
  ofVal_toVal a := by cases a <;> rfl

/-- A union with an arm of two values. -/
inductive Wide
  | one (n : UInt32)
  | two (m n : UInt32)
  deriving DecidableEq, Repr

instance : Wire Wide where
  shape := .union (.enumeration .msgType) fun
    | MsgType.call => .uint32
    | MsgType.reply => .surplus .uint32 .uint32
  toVal
    | .one n => ⟨MsgType.call, n⟩
    | .two m n => ⟨MsgType.reply, (m, n)⟩
  ofVal
    | ⟨MsgType.call, n⟩ => .one n
    | ⟨MsgType.reply, (m, n)⟩ => .two m n
  ofVal_toVal a := by cases a <;> rfl

/-! ### Their forms -/

example : Wire.encode (Switch.on "abc") = ⟨[0, 0, 0, 1, 0, 0, 0, 3, 97, 98, 99, 0], none⟩ := by
  decide +kernel

example : Wire.encode Switch.off = ⟨[0, 0, 0, 0], none⟩ := by decide

example : (Wire.decode .none [0, 0, 0, 2, 9] : Reading Switch) = .error (.invalidBool 2) [9] := by
  decide

example : (Wire.decode .none [0, 0, 0, 5, 9] : Reading Outcome) =
    .error (.unmappedDiscriminant 5 "Outcome") [9] := by
  decide

example : (Wire.decode .none [0, 0, 0, 1, 0, 0, 0, 7, 0, 0, 0, 8] : Reading Wide) =
    .error (.refused (.invalidLength 1 "a union arm")) [0, 0, 0, 8] := by
  decide

end OncWire
