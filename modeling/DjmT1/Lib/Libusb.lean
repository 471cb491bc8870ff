/-!
# libusb

What the user-space programs see of libusb.
-/

namespace DjmT1.Lib

/-- `enum libusb_transfer_status`. -/
inductive XferStatus
  | completed | error | timedOut | cancelled | stall | noDevice | overflow
  deriving DecidableEq, Repr

end DjmT1.Lib
