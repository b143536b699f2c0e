import FirmwareUpdate.Device.FileStore
import FirmwareUpdate.Device.Link

/-! File store calls as the engine makes them. -/
namespace FirmwareUpdate

abbrev FileLink := Link FileStore

namespace FileLink

abbrev Call := Action FileLink DeviceError

def init : Call Unit := Link.call .init FileStore.init

def release : Call Unit := Link.call .release FileStore.release

def openFile (path : String) (mode : FileMode) : Call Nat :=
  Link.call .openFile (FileStore.openFile path mode)

def read (handle offset length : Nat) : Call Bytes :=
  Link.call .read (FileStore.read handle offset length)

def write (handle offset : Nat) (data : Bytes) : Call Unit :=
  Link.call .write (FileStore.write handle offset data)

def erase (handle offset length : Nat) : Call Unit :=
  Link.call .erase (FileStore.erase handle offset length)

def close (handle : Nat) : Call Unit := Link.call .close (FileStore.close handle)

end FileLink
end FirmwareUpdate
