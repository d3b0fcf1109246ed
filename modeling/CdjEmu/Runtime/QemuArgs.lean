/-
  THE QEMU COMMAND LINE — what the configuration splices into it.

  `buildArgv` and `provisioningArgv` are the command lines of the player and of the provisioning
  guest, word by word, one definition for each group of words of the source.  Paths and device names
  go into the option texts as they are; a path is shown first, with U+FFFD for what is not UTF-8.
  Nothing is escaped.

  The host is a parameter, as are the slot directory, the environment and everything in the
  configuration.  On Windows a path may hold lone surrogates; showing them differs from `lossy` in
  the number of U+FFFD only.
-/
import CdjEmu.Lib.OptText

namespace CdjEmu.Qemu

open Text OptText

/-! ## The host and the configuration -/

/-- The hosts that the app is built for. -/
inductive Host where
  | macos
  | linux
  | windows
  | unsupported
  deriving DecidableEq

/-- QEMU's audio driver on a host, its options, and the key that names a device. -/
structure AudioBackend where
  driver : Bytes
  options : Bytes
  deviceSelector : Bytes

/-- The audio backend of a host. -/
def Host.audio : Host → Option AudioBackend
  | .macos => some ⟨bytes "coreaudio", bytes ",out.buffer-length=5000", bytes ",out.device-uid="⟩
  | .linux => some ⟨bytes "pipewire", bytes ",out.fixed-settings=off", bytes ",out.name="⟩
  | .windows => some ⟨bytes "wasapi", bytes "", bytes ",out.dev="⟩
  | .unsupported => none

/-- Where the guest's randomness comes from. -/
def Host.rngObject : Host → Bytes
  | .macos | .linux => bytes "rng-random,id=rng0,filename=/dev/urandom"
  | .windows | .unsupported => bytes "rng-builtin,id=rng0"

/-- Only on Linux does QEMU take descriptors over a socket. -/
def Host.passesFds : Host → Bool
  | .linux => true
  | .macos | .windows | .unsupported => false

/-- `dir` with `name` behind it. -/
def Host.join (host : Host) (dir name : Bytes) : Bytes :=
  let isSep (c : UInt8) : Bool := c = 47 ∨ host = .windows ∧ c = 92
  match dir.getLast? with
  | none => name
  | some c =>
    if isSep c then dir ++ name
    else dir ++ (if host = .windows then 92 else 47) :: name

/-- The players that are emulated. -/
inductive Model where
  | cdj3k
  | cdj3kx
  | cdj1500x
  deriving DecidableEq

/-- The size of the main screen. -/
def Model.mainLcd : Model → Nat × Nat
  | .cdj3k => (1280, 720)
  | .cdj3kx | .cdj1500x => (1280, 800)

/-- The position that a player's firmware expects the eMMC at. -/
def Model.emmcIndex : Model → Nat
  | .cdj3k | .cdj3kx => 1
  | .cdj1500x => 0

/-- The host's hypervisor. -/
structure Accelerator where
  name : Str
  inKernelGic : Bool

/-- How macOS reaches a network. -/
inductive VmnetMode where
  | host
  | bridged (iface : Str)
  | socket (path : Bytes)

/-- `QemuConfig`: what one launch is asked for. -/
structure QemuConfig where
  instanceId : UInt32
  model : Model
  kernel : Bytes
  initramfs : Bytes
  accel : Option Accelerator
  shm : Bool
  audio : Bool
  audioDeviceUid : Option Str
  serviceMode : Bool
  emmcImg : Option Bytes
  netVmnet : Option VmnetMode
  netTapIface : Option Str
  netTapFd : Option Int
  qmpPort : UInt16
  dev : Bool
  ephemeral : Bool
  gdbPort : UInt16
  sshPort : UInt16
  mac : Option Str
  socSerial : Option Str
  serialLog : Bool

/-- The defaults, with the accelerator the host offers. -/
def QemuConfig.new (accel : Option Accelerator) (kernel initramfs : Bytes) : QemuConfig where
  instanceId := 0
  model := .cdj3k
  kernel
  initramfs
  accel
  shm := false
  audio := false
  audioDeviceUid := none
  serviceMode := false
  emmcImg := none
  netVmnet := none
  netTapIface := none
  netTapFd := none
  qmpPort := 4445
  dev := false
  ephemeral := false
  gdbPort := 1235
  sshPort := 2222
  mac := none
  socSerial := none
  serialLog := false

/-- What the environment of the process says. -/
structure Env where
  /-- The slot directory of an instance. -/
  instanceDir : UInt32 → Bytes
  /-- `CDJ3K_SERIAL_SOCKET` is set. -/
  serialIsSocket : Bool
  /-- `CDJ3K_KCMD_EXTRA`, trimmed. -/
  kcmdExtra : Option Bytes
  /-- `DJPL_VMNET_UUID`. -/
  vmnetUuid : Option Str

/-- One option and its value. -/
def opt (flag : String) (value : Bytes) : List Bytes := [bytes flag, value]

/-- A path as it is shown. -/
def display (path : Bytes) : Bytes := lossy path

/-- A number in decimal, with its sign. -/
def decimalInt : Int → Bytes
  | .ofNat n => decimal n
  | .negSucc n => bytes "-" ++ decimal (n + 1)

section

variable (host : Host) (env : Env) (cfg : QemuConfig)

/-- The directory of the instance's sockets and shared files. -/
def sockDir : Bytes := env.instanceDir cfg.instanceId

/-- A file in that directory. -/
def inSockDir (name : String) : Bytes := host.join (sockDir env cfg) (bytes name)

/-- Where an ephemeral launch puts what the guest writes to its eMMC. -/
def emmcOverlayPath : Bytes := inSockDir host env cfg "emmc-overlay.qcow2"

/-- The second QMP socket, over which descriptors are passed. -/
def qmpFdSocket : Bytes := inSockDir host env cfg "qmp-fd.sock"

/-- The guest's memory. -/
def shmPath : Bytes := inSockDir host env cfg "ram.shm"

/-- The memory that the jog display shares. -/
def jogShmPath : Bytes := inSockDir host env cfg "jog.shm"

/-- The disk that stands in when no medium is attached. -/
def usbPlaceholderPath : Bytes := inSockDir host env cfg "usb.placeholder"

/-! ## The command line of the player -/

/-- Three gibibytes. -/
def memBytes : Nat := 0xC0000000

/-- The debugger's port, in Developer Mode. -/
def gdbArgs : List Bytes :=
  if cfg.dev then opt "-gdb" (bytes "tcp::" ++ decimal cfg.gdbPort.toNat) else []

/-- The machine, with the interrupt controller in the hypervisor where it can be. -/
def machineBase (accel : Option Accelerator) : Bytes :=
  if accel.any (·.inKernelGic) then bytes "virt,gic-version=3,kernel-irqchip=on"
  else bytes "virt,gic-version=3,kernel-irqchip=off"

/-- The host's own CPU under a hypervisor, an emulated one otherwise. -/
def cpuArgs (accel : Option Accelerator) : List Bytes :=
  match accel with
  | some a => opt "-accel" a.name.bytes ++ opt "-cpu" (bytes "host")
  | none => opt "-cpu" (bytes "cortex-a72")

/-- `machine_args`. -/
def machineArgs : List Bytes :=
  opt "-machine" (machineBase cfg.accel) ++ opt "-m" (decimal memBytes ++ bytes "B") ++
    cpuArgs cfg.accel ++ opt "-smp" (bytes "6")

/-- The kernel's command line. -/
def kernelCmdline : Bytes :=
  bytes "root=/dev/ram0 rdinit=/init loglevel=7 nowatchdog rng_core.default_quality=1024" ++
  bytes " console=ttyAMA0,115200" ++
  (if env.serialIsSocket then [] else bytes " systemd.journald.forward_to_console=1") ++
  bytes " virtio_gpu.modeset=1" ++
  (if cfg.serviceMode then bytes " subucom_testmode" else []) ++
  bytes " virtio_blk.emmc_index=" ++ decimal cfg.model.emmcIndex ++
  bytes " dummy.numdummies=0" ++
  (match cfg.socSerial with
    | some serial => bytes " cdj3k.serial=" ++ serial.bytes
    | none => []) ++
  (if cfg.audio then
    bytes " snd-dummy.enable=0" ++
      if cfg.accel.isNone then bytes " cdj3k.snd_period=512" else []
  else []) ++
  (match env.kcmdExtra with
    | some extra => bytes " " ++ extra
    | none => [])

/-- `kernel_args`. -/
def kernelArgs : List Bytes :=
  opt "-kernel" (display cfg.kernel) ++ opt "-initrd" (display cfg.initramfs) ++
    opt "-append" (kernelCmdline env cfg)

/-- `serial_args`: a socket or a file for the console, or no console at all. -/
def serialArgs : List Bytes :=
  if !cfg.serialLog then
    opt "-serial" (bytes "null") ++ opt "-monitor" (bytes "none") ++ opt "-parallel" (bytes "none")
  else
    opt "-serial" <|
      if env.serialIsSocket then
        bytes "unix:" ++ display (inSockDir host env cfg "serial.sock") ++
          bytes ",server=on,wait=off"
      else bytes "file:" ++ display (inSockDir host env cfg "serial.log")

/-- `ram_file_args`; the machine is named once more, now with its memory. -/
def ramFileArgs : List Bytes :=
  if !cfg.shm then []
  else
    opt "-object" (bytes "memory-backend-file,id=ram0,size=" ++ decimal memBytes ++
      bytes "B,mem-path=" ++ display (shmPath host env cfg) ++ bytes ",share=on") ++
    opt "-machine" (machineBase cfg.accel ++ bytes ",memory-backend=ram0")

/-- The display and the monitor. -/
def displayAndQmpArgs : List Bytes :=
  opt "-display" (bytes "shm,path=" ++ display (sockDir env cfg) ++ bytes "/main.shm") ++
  opt "-qmp" (bytes "tcp:localhost:" ++ decimal cfg.qmpPort.toNat ++ bytes ",server=on,wait=off") ++
  if host.passesFds then
    opt "-qmp" (bytes "unix:" ++ display (qmpFdSocket host env cfg) ++ bytes ",server=on,wait=off")
  else []

/-- The random number device. -/
def rngArgs : List Bytes :=
  opt "-object" host.rngObject ++ opt "-device" (bytes "virtio-rng-device,rng=rng0")

/-- The pinned output device, when there is one. -/
def pinnedDevice : Option Str := cfg.audioDeviceUid.filter (·.bytes ≠ [])

/-- `audio_args`. -/
def audioArgs : List Bytes :=
  match cfg.audio, host.audio with
  | true, some backend =>
    opt "-audiodev" (backend.driver ++ bytes ",id=audio0,in.voices=0" ++ backend.options ++
      match pinnedDevice cfg with
      | some uid => backend.deviceSelector ++ uid.bytes
      | none => []) ++
    opt "-device" (bytes "virtio-sound-device,audiodev=audio0,streams=1")
  | _, _ => []

/-- The network that host-only players share. -/
def hostNetworkId : Bytes :=
  match env.vmnetUuid with
  | some uuid => uuid.bytes
  | none => bytes "7b3d5e2a-9c14-4f6b-b2e1-0a1c2d3e4f50"

/-- `netdev_arg`. -/
def VmnetMode.netdevArg (mode : VmnetMode) (id : String) : Bytes :=
  match mode with
  | .host => bytes "vmnet-host,id=" ++ bytes id ++ bytes ",net-uuid=" ++ hostNetworkId env
  | .bridged iface => bytes "vmnet-bridged,id=" ++ bytes id ++ bytes ",ifname=" ++ iface.bytes
  | .socket path =>
    bytes "stream,id=" ++ bytes id ++
      bytes ",server=off,reconnect-ms=1000,addr.type=unix,addr.path=" ++ display path

/-- The TAP adapter, by its name or as an open descriptor. -/
def tapNetdev (id : String) (iface : Option Str) (fd : Option Int) : Option Bytes :=
  match host with
  | .windows => iface.map fun name => bytes "tap,id=" ++ bytes id ++ bytes ",ifname=" ++ name.bytes
  | .macos | .linux | .unsupported =>
    fd.map fun fd => bytes "tap,id=" ++ bytes id ++ bytes ",fd=" ++ decimalInt fd

/-- The MAC of the guest. -/
def macOf : Bytes :=
  match cfg.mac with
  | some mac => mac.bytes
  | none => bytes "0a:00:00:00:00:" ++ hexByte cfg.instanceId.toUInt8

/-- `net_args`: TAP first, then vmnet, else QEMU's own network with a port for SSH. -/
def netArgs : List Bytes :=
  let bridged := (tapNetdev host "net0" cfg.netTapIface cfg.netTapFd).or
    (cfg.netVmnet.map fun mode => mode.netdevArg env "net0")
  match bridged with
  | some netdev =>
    opt "-netdev" netdev ++
    opt "-device"
      (bytes "virtio-net-device,netdev=net0,mac=" ++ macOf cfg ++ bytes ",mrg_rxbuf=off")
  | none =>
    opt "-netdev"
      (bytes "user,id=net0,hostfwd=tcp::" ++ decimal cfg.sshPort.toNat ++ bytes "-:22") ++
    opt "-device" (bytes "virtio-net-device,netdev=net0,mrg_rxbuf=off")

/-- The channels that every guest has. -/
def channels : List String := ["ctrl", "cfg", "usb-link"]

/-- The channel of Developer Mode. -/
def devChannel : String := "dev"

/-- The two options of one channel. -/
def channelPair (name : String) : List Bytes :=
  opt "-chardev" (bytes "socket,id=vserial_" ++ bytes name ++ bytes ",path=" ++
    display (host.join (sockDir env cfg) (bytes name ++ bytes ".sock")) ++
    bytes ",server=on,wait=off") ++
  opt "-device" (bytes "virtserialport,chardev=vserial_" ++ bytes name ++ bytes ",name=cdj3k." ++
    bytes name)

/-- One socket and one port for each channel. -/
def channelArgs : List Bytes :=
  opt "-device" (bytes "virtio-serial-device,max_ports=8") ++
    (channels ++ if cfg.dev then [devChannel] else []).flatMap (channelPair host env cfg)

/-- The memory of the jog display. -/
def jogShmArgs : List Bytes :=
  opt "-object"
    (bytes "memory-backend-file,id=jogshm,mem-path=" ++ display (jogShmPath host env cfg) ++
    bytes ",size=1M,share=on") ++
  opt "-device" (bytes "ivshmem-plain,memdev=jogshm,master=on")

/-- The file of the eMMC drive and the option its backing file needs. -/
def emmcDrive (img : Bytes) : Bytes × Bytes :=
  if cfg.ephemeral then (emmcOverlayPath host env cfg, bytes ",backing.file.locking=off")
  else (img, [])

/-- `disk_args`: the USB placeholder, and the eMMC where there is one. -/
def diskArgs : List Bytes :=
  opt "-drive" (bytes "file=" ++ display (usbPlaceholderPath host env cfg) ++
    bytes ",if=none,id=usb0,format=raw,cache=writeback,file.locking=off") ++
  opt "-device" (bytes "virtio-blk-device,drive=usb0,id=usb0") ++
  match cfg.emmcImg with
  | some img =>
    opt "-drive" (bytes "file=" ++ display (emmcDrive host env cfg img).1 ++
      bytes ",if=none,id=emmc0,format=qcow2,cache=writeback,file.locking=off" ++
      (emmcDrive host env cfg img).2) ++
    opt "-device" (bytes "virtio-blk-device,drive=emmc0,id=emmc0")
  | none => []

/-- The GPU, in the size of the main screen. -/
def gpuArgs : List Bytes :=
  opt "-device" (bytes "virtio-gpu-device,id=virtio-gpu0,xres=" ++ decimal cfg.model.mainLcd.1 ++
    bytes ",yres=" ++ decimal cfg.model.mainLcd.2 ++ bytes ",max_outputs=1")

/-- `build_argv`: the whole command line. -/
def buildArgv : List Bytes :=
  [bytes "cdj3k-emu-qemu"] ++ machineArgs cfg ++ kernelArgs env cfg ++ serialArgs host env cfg ++
    ramFileArgs host env cfg ++ displayAndQmpArgs host env cfg ++ rngArgs host ++
    audioArgs host cfg ++ netArgs host env cfg ++ channelArgs host env cfg ++
    jogShmArgs host env cfg ++ diskArgs host env cfg ++ gpuArgs cfg ++ [bytes "-no-reboot"] ++
    gdbArgs cfg

end

/-! ## The command line of the provisioning guest -/

/-- The command line of the run that provisions an image. -/
def provisioningArgv (accel : Option Accelerator) (kernel initramfs scratch : Bytes) (ssh : Bool) :
    List Bytes :=
  [bytes "cdj3k-emu-qemu"] ++ opt "-machine" (machineBase accel) ++ opt "-m" (bytes "2G") ++
    opt "-smp" (bytes "6") ++ [bytes "-nographic", bytes "-no-reboot"] ++ opt "-nic"
      (bytes "none") ++
    cpuArgs accel ++ opt "-kernel" (display kernel) ++ opt "-initrd" (display initramfs) ++
    opt "-drive" (bytes "file=" ++ display scratch ++ bytes ",format=raw,if=none,id=handback") ++
    opt "-device" (bytes "virtio-blk-device,drive=handback") ++
    opt "-append" (bytes "root=/dev/ram0 rdinit=/cdj3k-init console=ttyAMA0 loglevel=4 panic=5" ++
      if ssh then bytes " cdj3k.ssh=1" else [])

end CdjEmu.Qemu
