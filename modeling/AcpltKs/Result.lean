/-! The result codes of the services. -/
namespace AcpltKs

/-- Result codes as they go over the wire. -/
abbrev KsResultCode := UInt32

namespace KsResultCode

def ok : KsResultCode := 0x0000
def generic : KsResultCode := 0x0001
def badName : KsResultCode := 0x0010
def badPath : KsResultCode := 0x0011
def noAccess : KsResultCode := 0x0013
def badType : KsResultCode := 0x0014
def serverUnknown : KsResultCode := 0x0021
def malformedPath : KsResultCode := 0x1001
def networkError : KsResultCode := 0x1002
def typeMismatch : KsResultCode := 0x1003
def hostUnknown : KsResultCode := 0x1004
def cantContact : KsResultCode := 0x1005
def timeout : KsResultCode := 0x1006
def noManager : KsResultCode := 0x1007

end KsResultCode
end AcpltKs
