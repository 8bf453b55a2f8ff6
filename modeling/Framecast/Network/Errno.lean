/-
Error numbers of the operating system.

Only five of them change what a connection does; the others are passed on by name.
-/

namespace Framecast

/-- Why the operating system refused a call. -/
inductive Errno where
  /-- Nothing to read within the read timeout, or no room to send. -/
  | again
  | timedOut
  | interrupted
  | connectionRefused
  /-- The send buffer is full. -/
  | noBuffers
  | other (name : String)
  deriving DecidableEq, Repr, Inhabited

namespace Errno

/-- The symbolic name of an error number. -/
def name : Errno → String
  | again => "EAGAIN"
  | timedOut => "ETIMEDOUT"
  | interrupted => "EINTR"
  | connectionRefused => "ECONNREFUSED"
  | noBuffers => "ENOBUFS"
  | other n => n

/-- The error number with a symbolic name. -/
def ofName (s : String) : Errno :=
  ([again, timedOut, interrupted, connectionRefused, noBuffers].find? fun e => e.name = s).getD
    (other s)

/-- Whether a read ended because its time was up. -/
def isTimeout (e : Errno) : Bool :=
  e = again || e = timedOut

/-- Whether a send failed for want of room only. -/
def isBufferFull (e : Errno) : Bool :=
  e = noBuffers || e = again

/-- Whether the same call may well succeed a moment later. -/
def isTransient (e : Errno) : Bool :=
  e.isTimeout || e = interrupted

end Errno

end Framecast
