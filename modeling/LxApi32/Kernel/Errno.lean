import Mathlib.Data.Int.Notation

/-!
# Error numbers of the Linux side

Its functions return them negated, as an `int`.
-/

namespace LxApi32

/-- `EPERM` -/
def errEPERM : ℤ := 1

/-- `ENOENT` -/
def errENOENT : ℤ := 2

/-- `EBADF` -/
def errEBADF : ℤ := 9

/-- `EAGAIN` -/
def errEAGAIN : ℤ := 11

/-- `ENOMEM` -/
def errENOMEM : ℤ := 12

/-- `EFAULT` -/
def errEFAULT : ℤ := 14

/-- `EBUSY` -/
def errEBUSY : ℤ := 16

/-- `EEXIST` -/
def errEEXIST : ℤ := 17

/-- `EINVAL` -/
def errEINVAL : ℤ := 22

/-- `EFBIG` -/
def errEFBIG : ℤ := 27

/-- `EMLINK` -/
def errEMLINK : ℤ := 31

/-- `EDEADLK` -/
def errEDEADLK : ℤ := 35

/-- `ENOLCK` -/
def errENOLCK : ℤ := 37

/-- `ENOSYS` -/
def errENOSYS : ℤ := 38

/-- `EOVERFLOW` -/
def errEOVERFLOW : ℤ := 75

end LxApi32
