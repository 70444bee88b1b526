/-! Where the registers of a controller lie, from its base address. -/
namespace Diskette.Port

def statusA (base : UInt16) : UInt16 := base
def statusB (base : UInt16) : UInt16 := base + 1
def digitalOutput (base : UInt16) : UInt16 := base + 2
def mainStatus (base : UInt16) : UInt16 := base + 4
def data (base : UInt16) : UInt16 := base + 5
def digitalInput (base : UInt16) : UInt16 := base + 7
/-- Shares its address with the digital input register, which can only be read. -/
def configControl (base : UInt16) : UInt16 := base + 7

end Diskette.Port
