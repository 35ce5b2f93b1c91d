set_option autoImplicit false

namespace FirmwareKit.Identity

def name : String := "wswantool"
def version : String := "0.3.0"

end FirmwareKit.Identity
