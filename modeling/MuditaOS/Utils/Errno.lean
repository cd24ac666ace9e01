import Mathlib.Data.Int.Notation

/-!
# Error numbers

Those of `errno.h` that the file system and the block devices return, with the
values of newlib.
-/

namespace MuditaOS

def ENOENT : Int := 2

def EIO : Int := 5

def ENXIO : Int := 6

def EBADF : Int := 9

def EACCES : Int := 13

def EBUSY : Int := 16

def EEXIST : Int := 17

def EXDEV : Int := 18

def ENODEV : Int := 19

def EINVAL : Int := 22

def ERANGE : Int := 34

def ENOTSUP : Int := 134

end MuditaOS
