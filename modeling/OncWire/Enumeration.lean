import OncWire.Enumerated

/-!
# The enumerations of the call protocol

The six enumerations that messages carry, each a type of its own, and a name
for each of them in `Enumeration`, so that a description of a wire format can
say which one it means.
-/

namespace OncWire

/-! ### Credentials -/

/-- How the body of a credential or verifier is to be understood. -/
inductive AuthFlavor
  | none
  | sys
  | short
  | dh
  | rpcsecGss
  deriving DecidableEq, Repr

namespace AuthFlavor

/-- The historical name of the system flavor. -/
def unix : AuthFlavor := sys

instance : Enumerated AuthFlavor where
  title := "AuthFlavor"
  members := [none, sys, short, dh, rpcsecGss]
  code
    | none => 0
    | sys => 1
    | short => 2
    | dh => 3
    | rpcsecGss => 6
  label
    | none => "AuthNone"
    | sys => "AuthSys"
    | short => "AuthShort"
    | dh => "AuthDh"
    | rpcsecGss => "RpcsecGss"
  find?_code a := by cases a <;> rfl

end AuthFlavor

/-- Why a server refused the caller's credentials. -/
inductive AuthStat
  | ok
  | badCred
  | rejectedCred
  | badVerf
  | rejectedVerf
  | tooWeak
  | invalidResp
  | failed
  | kerbGeneric
  | timeExpire
  | tktFile
  | decode
  | netAddr
  | rpcsecGssCredProblem
  | rpcsecGssCtxProblem
  deriving DecidableEq, Repr

namespace AuthStat

instance : Enumerated AuthStat where
  title := "AuthStat"
  members := [ok, badCred, rejectedCred, badVerf, rejectedVerf, tooWeak, invalidResp, failed,
    kerbGeneric, timeExpire, tktFile, decode, netAddr, rpcsecGssCredProblem, rpcsecGssCtxProblem]
  code
    | ok => 0
    | badCred => 1
    | rejectedCred => 2
    | badVerf => 3
    | rejectedVerf => 4
    | tooWeak => 5
    | invalidResp => 6
    | failed => 7
    | kerbGeneric => 8
    | timeExpire => 9
    | tktFile => 10
    | decode => 11
    | netAddr => 12
    | rpcsecGssCredProblem => 13
    | rpcsecGssCtxProblem => 14
  label
    | ok => "AuthOk"
    | badCred => "AuthBadcred"
    | rejectedCred => "AuthRejectedcred"
    | badVerf => "AuthBadverf"
    | rejectedVerf => "AuthRejectedverf"
    | tooWeak => "AuthTooweak"
    | invalidResp => "AuthInvalidresp"
    | failed => "AuthFailed"
    | kerbGeneric => "AuthKerbGeneric"
    | timeExpire => "AuthTimeexpire"
    | tktFile => "AuthTktFile"
    | decode => "AuthDecode"
    | netAddr => "AuthNetAddr"
    | rpcsecGssCredProblem => "RpcsecGssCredproblem"
    | rpcsecGssCtxProblem => "RpcsecGssCtxproblem"
  find?_code a := by cases a <;> rfl

end AuthStat

/-! ### Messages -/

/-- The direction of a message. -/
inductive MsgType
  | call
  | reply
  deriving DecidableEq, Repr

namespace MsgType

instance : Enumerated MsgType where
  title := "MsgType"
  members := [call, reply]
  code
    | call => 0
    | reply => 1
  label
    | call => "Call"
    | reply => "Reply"
  find?_code a := by cases a <;> rfl

end MsgType

/-- Whether a server took up a call. -/
inductive ReplyStat
  | accepted
  | denied
  deriving DecidableEq, Repr

namespace ReplyStat

instance : Enumerated ReplyStat where
  title := "ReplyStat"
  members := [accepted, denied]
  code
    | accepted => 0
    | denied => 1
  label
    | accepted => "MsgAccepted"
    | denied => "MsgDenied"
  find?_code a := by cases a <;> rfl

end ReplyStat

/-- How an accepted call ended. -/
inductive AcceptStat
  | success
  | progUnavail
  | progMismatch
  | procUnavail
  | garbageArgs
  | systemErr
  deriving DecidableEq, Repr

namespace AcceptStat

instance : Enumerated AcceptStat where
  title := "AcceptStat"
  members := [success, progUnavail, progMismatch, procUnavail, garbageArgs, systemErr]
  code
    | success => 0
    | progUnavail => 1
    | progMismatch => 2
    | procUnavail => 3
    | garbageArgs => 4
    | systemErr => 5
  label
    | success => "Success"
    | progUnavail => "ProgUnavail"
    | progMismatch => "ProgMismatch"
    | procUnavail => "ProcUnavail"
    | garbageArgs => "GarbageArgs"
    | systemErr => "SystemErr"
  find?_code a := by cases a <;> rfl

end AcceptStat

/-- Why a call was denied. -/
inductive RejectStat
  | rpcMismatch
  | authError
  deriving DecidableEq, Repr

namespace RejectStat

instance : Enumerated RejectStat where
  title := "RejectStat"
  members := [rpcMismatch, authError]
  code
    | rpcMismatch => 0
    | authError => 1
  label
    | rpcMismatch => "RpcMismatch"
    | authError => "AuthError"
  find?_code a := by cases a <;> rfl

end RejectStat

/-! ### Naming an enumeration -/

/-- The enumerations that a wire format may refer to. -/
inductive Enumeration
  | authFlavor
  | authStat
  | msgType
  | replyStat
  | acceptStat
  | rejectStat
  deriving DecidableEq, Repr

namespace Enumeration

/-- Every enumeration. -/
def all : List Enumeration :=
  [authFlavor, authStat, msgType, replyStat, acceptStat, rejectStat]

/-- The type of the members of an enumeration. -/
@[reducible] def Member : Enumeration → Type
  | authFlavor => AuthFlavor
  | authStat => AuthStat
  | msgType => MsgType
  | replyStat => ReplyStat
  | acceptStat => AcceptStat
  | rejectStat => RejectStat

instance instEnumeratedMember : (e : Enumeration) → Enumerated e.Member
  | authFlavor => inferInstanceAs (Enumerated AuthFlavor)
  | authStat => inferInstanceAs (Enumerated AuthStat)
  | msgType => inferInstanceAs (Enumerated MsgType)
  | replyStat => inferInstanceAs (Enumerated ReplyStat)
  | acceptStat => inferInstanceAs (Enumerated AcceptStat)
  | rejectStat => inferInstanceAs (Enumerated RejectStat)

instance instDecidableEqMember : (e : Enumeration) → DecidableEq e.Member
  | authFlavor => inferInstanceAs (DecidableEq AuthFlavor)
  | authStat => inferInstanceAs (DecidableEq AuthStat)
  | msgType => inferInstanceAs (DecidableEq MsgType)
  | replyStat => inferInstanceAs (DecidableEq ReplyStat)
  | acceptStat => inferInstanceAs (DecidableEq AcceptStat)
  | rejectStat => inferInstanceAs (DecidableEq RejectStat)

/-- The name under which an enumeration is reported. -/
def title (e : Enumeration) : String := Enumerated.title e.Member

end Enumeration

end OncWire
