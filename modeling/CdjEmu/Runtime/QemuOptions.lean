/-
  WHAT QEMU READS BACK — the options of the command lines against their templates.

  `optionsOf` pairs the flags of a command line with their values, `listedOptions` keeps the flags
  whose values are option texts.  A template names the keys of one option in order with the
  configured values; `template` lists them for the whole command line, in the order of the command
  line.

  `Listed args specs` — the words `args` hold exactly the options `specs`, whatever follows — is
  kept by appending, so each group of words is compared with its own templates, and the command line
  with all of them (`listed_buildArgv`).  The general result on option texts then gives the
  condition under which QEMU reads back what was configured: no value that is really used has a
  comma, and the paths are UTF-8 (`PlainConfig`).

  1. **Program** — `Runtime/QemuArgs` builds the words, and `Lib/OptText` has QEMU's reader of one
     option text: commas end a piece, two stand for one, and the first equals sign ends the key.

  2. **Specification** — `ReadsBack`: the options that QEMU lists have the keys of the templates,
     each once, and the values that were configured.  The templates are written from the
     configuration alone and name every value that any of the words splices in.

  3. **The crux (`plain_template`)** — the condition falls apart into the groups of words, and each
     group's share is what it splices: nothing, the directory of the sockets, or one value of its
     own.

  4. **Bridge** — `readsBack_iff`, over any templates with keys of their own: a value is read back
     exactly if it has no comma and its octets are UTF-8, since paths are spliced as they are
     displayed.
-/
import CdjEmu.Runtime.QemuArgs

namespace CdjEmu.Qemu

open Text OptText

/-! ## Reading a command line -/

/-- Every flag these command lines use takes a value but two. -/
def takesValue (flag : Bytes) : Bool := flag ≠ bytes "-no-reboot" ∧ flag ≠ bytes "-nographic"

/-- The flags of a command line with their values; a flag without a value pairs with nothing. -/
def optionsOf : List Bytes → List (Bytes × Bytes)
  | [] => []
  | [_] => []
  | flag :: value :: rest =>
    if takesValue flag then (flag, value) :: optionsOf rest else optionsOf (value :: rest)

/-- The flags whose values are option texts. -/
def isListed (flag : Bytes) : Bool :=
  flag ∈ ["-drive", "-object", "-chardev", "-device", "-display", "-audiodev", "-netdev"].map bytes

/-- The options behind the program name. -/
def listedOptions (argv : List Bytes) : List (Bytes × Bytes) :=
  (optionsOf argv.tail).filter fun o => isListed o.1

/-- A flag and what its value is meant to hold. -/
abbrev Spec := Bytes × Template

/-- QEMU reads `argv` as `specs`: every option has the keys of its template, each once, with the
    configured values. -/
def ReadsBack (argv : List Bytes) (specs : List Spec) : Prop :=
  (listedOptions argv).map (fun o => (o.1, readOpt o.2)) =
      specs.map (fun s => (s.1, s.2.configured)) ∧
    ∀ o ∈ listedOptions argv, ((readOpt o.2).map Prod.fst).Nodup

/-! ## Templates -/

/-- A key without a value. -/
def word (k : Key) : Key × Option Val := (k, none)

/-- A key whose value is the same in every launch. -/
def fixed (k : Key) (t : PlainText) : Key × Option Val := (k, some (.fixed t))

/-- A key whose value is a configured text. -/
def text (k : Key) (s : Str) : Key × Option Val := (k, some (.text s))

/-- A key whose value is a path, spliced octet for octet. -/
def path (k : Key) (b : Bytes) : Key × Option Val := (k, some (.path b))

section

variable (host : Host) (env : Env) (cfg : QemuConfig)

/-- The shared memory file, in the options of `ram_file_args`. -/
def ramFileTemplate : List Spec :=
  if !cfg.shm then []
  else [(bytes "-object",
    [word (key "memory-backend-file"), fixed (key "id") (plain "ram0"),
      fixed (key "size") ((PlainText.decimal memBytes).append (plain "B")),
      path (key "mem-path") (shmPath host env cfg), fixed (key "share") (plain "on")])]

/-- The display that QEMU writes to shared memory. -/
def displayTemplate : List Spec :=
  [(bytes "-display",
    [word (key "shm"), path (key "path") (sockDir env cfg ++ bytes "/main.shm")])]

/-- The random number source and its device. -/
def rngTemplate : List Spec :=
  [(bytes "-object",
    match host with
    | .macos | .linux =>
      [word (key "rng-random"), fixed (key "id") (plain "rng0"),
        fixed (key "filename") (plain "/dev/urandom")]
    | .windows | .unsupported => [word (key "rng-builtin"), fixed (key "id") (plain "rng0")]),
  (bytes "-device", [word (key "virtio-rng-device"), fixed (key "rng") (plain "rng0")])]

/-- The driver, the options it needs and the key that names a device. -/
def audioKeys : Host → Option (Key × Template × Key)
  | .macos => some (key "coreaudio", [fixed (key "out.buffer-length") (plain "5000")],
      key "out.device-uid")
  | .linux => some (key "pipewire", [fixed (key "out.fixed-settings") (plain "off")],
      key "out.name")
  | .windows => some (key "wasapi", [], key "out.dev")
  | .unsupported => none

/-- The host's audio driver and the virtio-snd device, where the launch has audio. -/
def audioTemplate : List Spec :=
  match cfg.audio, audioKeys host with
  | true, some (driver, options, selector) =>
    [(bytes "-audiodev",
      word driver :: fixed (key "id") (plain "audio0") :: fixed (key "in.voices") (plain "0") ::
        options ++
        match pinnedDevice cfg with
        | some uid => [text selector uid]
        | none => []),
    (bytes "-device",
      [word (key "virtio-sound-device"), fixed (key "audiodev") (plain "audio0"),
        fixed (key "streams") (plain "1")])]
  | _, _ => []

/-- The netdev of each way to reach a network on macOS. -/
def vmnetTemplate : VmnetMode → Template
  | .host =>
    [word (key "vmnet-host"), fixed (key "id") (plain "net0"),
      match env.vmnetUuid with
      | some uuid => text (key "net-uuid") uuid
      | none => fixed (key "net-uuid") (plain "7b3d5e2a-9c14-4f6b-b2e1-0a1c2d3e4f50")]
  | .bridged iface =>
    [word (key "vmnet-bridged"), fixed (key "id") (plain "net0"), text (key "ifname") iface]
  | .socket sock =>
    [word (key "stream"), fixed (key "id") (plain "net0"), fixed (key "server") (plain "off"),
      fixed (key "reconnect-ms") (plain "1000"), fixed (key "addr.type") (plain "unix"),
      path (key "addr.path") sock]

/-- A number in decimal has no comma and no `=`. -/
def decimalIntPlain : Int → PlainText
  | .ofNat n => .decimal n
  | .negSucc n => (plain "-").append (.decimal (n + 1))

/-- The netdev over a TAP adapter: by name on Windows, by descriptor elsewhere. -/
def tapTemplate : Option Template :=
  match host with
  | .windows => cfg.netTapIface.map fun name =>
    [word (key "tap"), fixed (key "id") (plain "net0"), text (key "ifname") name]
  | .macos | .linux | .unsupported => cfg.netTapFd.map fun fd =>
    [word (key "tap"), fixed (key "id") (plain "net0"), fixed (key "fd") (decimalIntPlain fd)]

/-- The netdev that is not QEMU's own network, when there is one. -/
def bridgedTemplate : Option Template :=
  (tapTemplate host cfg).or (cfg.netVmnet.map (vmnetTemplate env))

/-- Two hexadecimal digits. -/
def hexBytePlain (c : UInt8) : PlainText where
  bytes := hexByte c
  valid := (show ∀ c, Valid (hexByte c) by decide +kernel) c
  plain := (show ∀ c, comma ∉ hexByte c by decide +kernel) c

/-- The netdev, or QEMU's own network without one, and the device in front of it. -/
def netTemplate : List Spec :=
  match bridgedTemplate host env cfg with
  | some netdev =>
    [(bytes "-netdev", netdev),
    (bytes "-device",
      [word (key "virtio-net-device"), fixed (key "netdev") (plain "net0"),
        match cfg.mac with
        | some mac => text (key "mac") mac
        | none => fixed (key "mac")
          ((plain "0a:00:00:00:00:").append (hexBytePlain cfg.instanceId.toUInt8)),
        fixed (key "mrg_rxbuf") (plain "off")])]
  | none =>
    [(bytes "-netdev",
      [word (key "user"), fixed (key "id") (plain "net0"),
        fixed (key "hostfwd")
          (((plain "tcp::").append (.decimal cfg.sshPort.toNat)).append (plain "-:22"))]),
    (bytes "-device",
      [word (key "virtio-net-device"), fixed (key "netdev") (plain "net0"),
        fixed (key "mrg_rxbuf") (plain "off")])]

/-- The templates of one channel. -/
def channelPairTemplate (name : PlainText) : List Spec :=
  [(bytes "-chardev",
    [word (key "socket"), fixed (key "id") ((plain "vserial_").append name),
      path (key "path") (host.join (sockDir env cfg) (name.bytes ++ bytes ".sock")),
      fixed (key "server") (plain "on"), fixed (key "wait") (plain "off")]),
  (bytes "-device",
    [word (key "virtserialport"), fixed (key "chardev") ((plain "vserial_").append name),
      fixed (key "name") ((plain "cdj3k.").append name)])]

/-- The virtio-serial device and the sockets that the guest's channels end in. -/
def channelTemplate : List Spec :=
  (bytes "-device", [word (key "virtio-serial-device"), fixed (key "max_ports") (plain "8")]) ::
    ([plain "ctrl", plain "cfg", plain "usb-link"] ++ if cfg.dev then [plain "dev"] else []).flatMap
      (channelPairTemplate host env cfg)

/-- The memory that the jog display shares, and its device. -/
def jogShmTemplate : List Spec :=
  [(bytes "-object",
    [word (key "memory-backend-file"), fixed (key "id") (plain "jogshm"),
      path (key "mem-path") (jogShmPath host env cfg), fixed (key "size") (plain "1M"),
      fixed (key "share") (plain "on")]),
  (bytes "-device",
    [word (key "ivshmem-plain"), fixed (key "memdev") (plain "jogshm"),
      fixed (key "master") (plain "on")])]

/-- The drives: the USB placeholder and, where there is one, the eMMC, whose
    file may be an overlay. -/
def diskTemplate : List Spec :=
  [(bytes "-drive",
    [path (key "file") (usbPlaceholderPath host env cfg), fixed (key "if") (plain "none"),
      fixed (key "id") (plain "usb0"), fixed (key "format") (plain "raw"),
      fixed (key "cache") (plain "writeback"), fixed (key "file.locking") (plain "off")]),
  (bytes "-device",
    [word (key "virtio-blk-device"), fixed (key "drive") (plain "usb0"),
      fixed (key "id") (plain "usb0")])] ++
  match cfg.emmcImg with
  | some img =>
    [(bytes "-drive",
      [path (key "file") (if cfg.ephemeral then emmcOverlayPath host env cfg else img),
        fixed (key "if") (plain "none"), fixed (key "id") (plain "emmc0"),
        fixed (key "format") (plain "qcow2"), fixed (key "cache") (plain "writeback"),
        fixed (key "file.locking") (plain "off")] ++
      if cfg.ephemeral then [fixed (key "backing.file.locking") (plain "off")] else []),
    (bytes "-device",
      [word (key "virtio-blk-device"), fixed (key "drive") (plain "emmc0"),
        fixed (key "id") (plain "emmc0")])]
  | none => []

/-- The GPU with the panel's size. -/
def gpuTemplate : List Spec :=
  [(bytes "-device",
    [word (key "virtio-gpu-device"), fixed (key "id") (plain "virtio-gpu0"),
      fixed (key "xres") (.decimal cfg.model.mainLcd.1),
      fixed (key "yres") (.decimal cfg.model.mainLcd.2), fixed (key "max_outputs") (plain "1")])]

/-- What the command line of the player is meant to say. -/
def template : List Spec :=
  ramFileTemplate host env cfg ++ displayTemplate env cfg ++ rngTemplate host ++
    audioTemplate host cfg ++ netTemplate host env cfg ++ channelTemplate host env cfg ++
    jogShmTemplate host env cfg ++ diskTemplate host env cfg ++ gpuTemplate cfg

end

/-- What the command line of the provisioning guest is meant to say. -/
def provisioningTemplate (scratch : Bytes) : List Spec :=
  [(bytes "-drive",
    [path (key "file") scratch, fixed (key "format") (plain "raw"), fixed (key "if") (plain "none"),
      fixed (key "id") (plain "handback")]),
  (bytes "-device", [word (key "virtio-blk-device"), fixed (key "drive") (plain "handback")])]

/-! ## The texts are the templates -/

/-- The words `args` hold exactly the options `specs`, whatever follows them. -/
def Listed (args : List Bytes) (specs : List Spec) : Prop :=
  ∀ rest, (optionsOf (args ++ rest)).filter (fun o => isListed o.1) =
    specs.map (fun s => (s.1, writeOpt s.2.shown)) ++ (optionsOf rest).filter fun o => isListed o.1

/-- No words hold no options. -/
theorem Listed.nil : Listed [] [] := fun _ => rfl

/-- Words after words hold options after options. -/
theorem Listed.append {a b : List Bytes} {s t : List Spec} (ha : Listed a s) (hb : Listed b t) :
    Listed (a ++ b) (s ++ t) := by
  intro rest
  rw [List.append_assoc, ha, hb, List.map_append, List.append_assoc]

/-- Words without option texts before the rest. -/
theorem Listed.skip {a b : List Bytes} {t : List Spec} (ha : Listed a []) (hb : Listed b t) :
    Listed (a ++ b) t := ha.append hb

/-- An option that holds the text of its template, with more behind it. -/
theorem Listed.cons {flag : String} {value : Bytes} {t : Template} {args : List Bytes}
    {specs : List Spec} (hflag : takesValue (bytes flag) = true ∧ isListed (bytes flag) = true)
    (h : value = writeOpt t.shown) (hargs : Listed args specs) :
    Listed (opt flag value ++ args) ((bytes flag, t) :: specs) := by
  intro rest
  have hlisted : isListed (bytes flag, value).1 = true := hflag.2
  rw [opt, List.append_assoc, List.cons_append, List.cons_append, List.nil_append, optionsOf,
    if_pos hflag.1, List.filter_cons, if_pos hlisted, hargs, h]
  rfl

/-- A flag with an option text holds one option. -/
theorem Listed.opt {flag : String} {value : Bytes} {t : Template}
    (hflag : takesValue (bytes flag) = true ∧ isListed (bytes flag) = true)
    (h : value = writeOpt t.shown) : Listed (opt flag value) [(bytes flag, t)] := by
  rw [← List.append_nil (Qemu.opt flag value)]
  exact Listed.cons hflag h .nil

/-- An option whose value is no option text. -/
theorem Listed.other {flag : String} (value : Bytes)
    (hflag : takesValue (bytes flag) = true ∧ isListed (bytes flag) = false) :
    Listed (Qemu.opt flag value) [] := by
  intro rest
  have hlisted : ¬ isListed (bytes flag, value).1 = true := by
    rw [hflag.2]
    decide
  rw [Qemu.opt, List.cons_append, List.cons_append, List.nil_append, optionsOf, if_pos hflag.1,
    List.filter_cons, if_neg hlisted]
  rfl

/-- A flag without a value. -/
theorem Listed.flag (flag : Bytes) (hflag : takesValue flag = false) : Listed [flag] [] := by
  intro rest
  rw [List.singleton_append]
  cases rest with
  | nil => rfl
  | cons value rest =>
    rw [optionsOf, if_neg (by rw [hflag]; decide)]
    rfl

/-- With nothing before and behind them, what QEMU lists of the words are the options. -/
theorem Listed.eq {args : List Bytes} {specs : List Spec} (h : Listed args specs)
    (program : Bytes) :
    listedOptions (program :: args) = specs.map fun s => (s.1, writeOpt s.2.shown) := by
  have := h []
  rw [List.append_nil, optionsOf, List.filter_nil, List.append_nil] at this
  exact this

section

variable (host : Host) (env : Env) (cfg : QemuConfig)

theorem listed_cpuArgs (accel : Option Accelerator) : Listed (cpuArgs accel) [] := by
  cases accel with
  | none => exact .other _ (by decide)
  | some a => exact (Listed.other _ (by decide)).append (.other _ (by decide))

theorem listed_machineArgs : Listed (machineArgs cfg) [] :=
  (((Listed.other _ (by decide)).append (.other _ (by decide))).append
    (listed_cpuArgs cfg.accel)).append (.other _ (by decide))

theorem listed_kernelArgs : Listed (kernelArgs env cfg) [] :=
  ((Listed.other _ (by decide)).append (.other _ (by decide))).append (.other _ (by decide))

theorem listed_serialArgs : Listed (serialArgs host env cfg) [] := by
  rw [serialArgs]
  split
  · exact ((Listed.other _ (by decide)).append (.other _ (by decide))).append (.other _ (by decide))
  · exact .other _ (by decide)

/-- The words of `ram_file_args` against their template; the other groups follow in the
    order of the command line. -/
theorem listed_ramFileArgs : Listed (ramFileArgs host env cfg) (ramFileTemplate host env cfg) := by
  rw [ramFileArgs, ramFileTemplate]
  split
  · exact .nil
  · refine Listed.cons (by decide) ?_ (.other _ (by decide))
    rfl

theorem listed_displayAndQmpArgs :
    Listed (displayAndQmpArgs host env cfg) (displayTemplate env cfg) := by
  have hname : bytes "/main.shm" = 47 :: bytes "main.shm" := by decide
  have hshown : lossy (sockDir env cfg ++ bytes "/main.shm") =
      display (sockDir env cfg) ++ bytes "/main.shm" := by
    rw [hname, lossy_append_ascii (by decide),
      lossy_of_valid (show Valid (bytes "main.shm") by decide)]
    rfl
  rw [displayAndQmpArgs, List.append_assoc (Qemu.opt _ _)]
  refine Listed.cons (by decide) ?_ ?_
  · rw [List.append_assoc, ← hshown]
    rfl
  · refine (Listed.other _ (by decide)).append ?_
    split
    · exact .other _ (by decide)
    · exact .nil

theorem listed_rngArgs : Listed (rngArgs host) (rngTemplate host) := by
  refine Listed.cons (by decide) ?_ (.opt (by decide) rfl)
  cases host <;> rfl

theorem listed_audioArgs : Listed (audioArgs host cfg) (audioTemplate host cfg) := by
  rw [audioArgs, audioTemplate]
  cases cfg.audio with
  | false => exact .nil
  | true =>
    cases host with
    | unsupported => exact .nil
    | macos =>
      refine Listed.cons (by decide) ?_ (.opt (by decide) rfl)
      cases pinnedDevice cfg <;> rfl
    | linux =>
      refine Listed.cons (by decide) ?_ (.opt (by decide) rfl)
      cases pinnedDevice cfg <;> rfl
    | windows =>
      refine Listed.cons (by decide) ?_ (.opt (by decide) rfl)
      cases pinnedDevice cfg <;> rfl

/-- The text that `netdev_arg` formats is the template's. -/
theorem netdevArg_eq (mode : VmnetMode) :
    mode.netdevArg env "net0" = writeOpt (vmnetTemplate env mode).shown := by
  cases mode with
  | host =>
    rw [VmnetMode.netdevArg, vmnetTemplate, hostNetworkId]
    cases env.vmnetUuid <;> rfl
  | bridged iface => rfl
  | socket path => rfl

/-- So is that of `tap_netdev`. -/
theorem tapNetdev_eq : tapNetdev host "net0" cfg.netTapIface cfg.netTapFd =
    (tapTemplate host cfg).map fun t => writeOpt t.shown := by
  have hfd : ∀ fd : Int, bytes "tap,id=" ++ bytes "net0" ++ bytes ",fd=" ++ decimalInt fd =
      writeOpt (Template.shown
        [word (key "tap"), fixed (key "id") (plain "net0"),
          fixed (key "fd") (decimalIntPlain fd)]) := by
    intro fd
    cases fd <;> rfl
  cases host with
  | windows => cases h : cfg.netTapIface <;> simp only [tapNetdev, tapTemplate, h] <;> rfl
  | macos | linux | unsupported =>
    cases h : cfg.netTapFd with
    | none => simp only [tapNetdev, tapTemplate, h]; rfl
    | some fd => simp only [tapNetdev, tapTemplate, h, Option.map_some, hfd]

theorem listed_netArgs : Listed (netArgs host env cfg) (netTemplate host env cfg) := by
  have hbridged : (tapNetdev host "net0" cfg.netTapIface cfg.netTapFd).or
      (cfg.netVmnet.map fun mode => mode.netdevArg env "net0") =
      (bridgedTemplate host env cfg).map fun t => writeOpt t.shown := by
    rw [tapNetdev_eq, bridgedTemplate, Option.map_or, Option.map_map]
    congr 1
    exact congrArg (fun f => cfg.netVmnet.map f) (funext (netdevArg_eq env))
  rw [netArgs, netTemplate, hbridged]
  cases bridgedTemplate host env cfg with
  | some netdev =>
    refine Listed.cons (by decide) rfl (.opt (by decide) ?_)
    rw [macOf]
    cases cfg.mac <;> rfl
  | none =>
    refine Listed.cons (by decide) ?_ (.opt (by decide) rfl)
    rfl

/-- One channel: a chardev over a socket and the port in front of it. -/
theorem listed_channelPair (name : String) (p : PlainText) (h : bytes name = p.bytes) :
    Listed (channelPair host env cfg name) (channelPairTemplate host env cfg p) := by
  rw [channelPair, channelPairTemplate, h]
  refine Listed.cons (by decide) ?_ (.opt (by decide) ?_)
  · rw [List.append_assoc, List.append_assoc, List.append_assoc]
    rfl
  · rw [List.append_assoc, List.append_assoc]
    rfl

theorem listed_channelArgs : Listed (channelArgs host env cfg) (channelTemplate host env cfg) := by
  have hctrl := listed_channelPair host env cfg "ctrl" (plain "ctrl") rfl
  have hcfg := listed_channelPair host env cfg "cfg" (plain "cfg") rfl
  have hlink := listed_channelPair host env cfg "usb-link" (plain "usb-link") rfl
  have hdev := listed_channelPair host env cfg "dev" (plain "dev") rfl
  rw [channelArgs, channelTemplate]
  refine Listed.cons (by decide) rfl ?_
  cases cfg.dev with
  | false => exact hctrl.append (hcfg.append (hlink.append .nil))
  | true => exact hctrl.append (hcfg.append (hlink.append (hdev.append .nil)))

theorem listed_jogShmArgs : Listed (jogShmArgs host env cfg) (jogShmTemplate host env cfg) := by
  refine Listed.cons (by decide) ?_ (.opt (by decide) rfl)
  rfl

theorem listed_diskArgs : Listed (diskArgs host env cfg) (diskTemplate host env cfg) := by
  rw [diskArgs, diskTemplate, List.append_assoc (Qemu.opt _ _)]
  refine Listed.cons (by decide) ?_ (Listed.cons (by decide) rfl ?_)
  · rfl
  · cases cfg.emmcImg with
    | none => exact .nil
    | some img =>
      refine Listed.cons (by decide) ?_ (.opt (by decide) rfl)
      rw [emmcDrive]
      cases cfg.ephemeral with
      | true =>
        rw [if_pos rfl, if_pos rfl, if_pos rfl, List.append_assoc, List.append_assoc]
        rfl
      | false =>
        rw [if_neg (by decide), if_neg (by decide), if_neg (by decide), List.append_nil]
        rfl

theorem listed_gpuArgs : Listed (gpuArgs cfg) (gpuTemplate cfg) := by
  refine Listed.opt (by decide) ?_
  cases cfg.model <;> rfl

theorem listed_gdbArgs : Listed (gdbArgs cfg) [] := by
  rw [gdbArgs]
  split
  · exact .other _ (by decide)
  · exact .nil

/-- The options of the whole command line are those of `template`. -/
theorem listed_buildArgv :
    listedOptions (buildArgv host env cfg) =
      (template host env cfg).map fun s => (s.1, writeOpt s.2.shown) := by
  have h := (listed_machineArgs cfg).append (listed_kernelArgs env cfg)
    |>.append (listed_serialArgs host env cfg) |>.append (listed_ramFileArgs host env cfg)
    |>.append (listed_displayAndQmpArgs host env cfg) |>.append (listed_rngArgs host)
    |>.append (listed_audioArgs host cfg) |>.append (listed_netArgs host env cfg)
    |>.append (listed_channelArgs host env cfg) |>.append (listed_jogShmArgs host env cfg)
    |>.append (listed_diskArgs host env cfg) |>.append (listed_gpuArgs cfg)
    |>.append (.flag (bytes "-no-reboot") (by decide)) |>.append (listed_gdbArgs cfg)
  have := h.eq (bytes "cdj3k-emu-qemu")
  simp only [List.append_nil, List.nil_append] at this
  rw [template, ← this]
  rfl

/-- And those of the provisioning run are those of its own template. -/
theorem listed_provisioningArgv (accel : Option Accelerator) (kernel initramfs scratch : Bytes)
    (ssh : Bool) :
    listedOptions (provisioningArgv accel kernel initramfs scratch ssh) =
      (provisioningTemplate scratch).map fun s => (s.1, writeOpt s.2.shown) := by
  simp only [provisioningArgv, List.append_assoc, List.singleton_append]
  refine Listed.eq ?_ _
  refine .skip (.other _ (by decide))
    (.skip (.other _ (by decide)) (.skip (.other _ (by decide)) ?_))
  refine .skip ((Listed.flag _ (by decide)).append (.flag _ (by decide))) ?_
  refine .skip (.other _ (by decide)) (.skip (listed_cpuArgs accel) ?_)
  refine .skip (.other _ (by decide)) (.skip (.other _ (by decide)) ?_)
  refine Listed.cons (by decide) ?_ (Listed.cons (by decide) rfl (.other _ (by decide)))
  rfl

end

/-! ## When the values are read back -/

/-- An option has keys, each once. -/
def Spec.Keyed (s : Spec) : Prop := s.2 ≠ [] ∧ (s.2.map fun p => p.1.bytes).Nodup

instance (s : Spec) : Decidable s.Keyed := inferInstanceAs (Decidable (_ ∧ _))

/-- Where the keys are distinct and well formed, QEMU reads the configured values back exactly when
    every value is plain. -/
theorem readsBack_iff {argv : List Bytes} {specs : List Spec}
    (h : listedOptions argv = specs.map fun s => (s.1, writeOpt s.2.shown))
    (hkeyed : ∀ s ∈ specs, s.Keyed) : ReadsBack argv specs ↔ ∀ s ∈ specs, s.2.Plain := by
  have hread : (listedOptions argv).map (fun o => (o.1, readOpt o.2)) =
      specs.map (fun s => (s.1, s.2.configured)) ↔ ∀ s ∈ specs, s.2.Plain := by
    rw [h, List.map_map, List.map_inj_left]
    refine forall₂_congr fun s hs => ?_
    rw [← readOpt_writeOpt_iff (hkeyed s hs).1]
    exact ⟨fun heq => congrArg Prod.snd heq, fun heq => congrArg (Prod.mk s.1) heq⟩
  rw [ReadsBack, hread]
  refine ⟨And.left, fun hplain => ⟨hplain, ?_⟩⟩
  intro o ho
  rw [h] at ho
  obtain ⟨s, hs, rfl⟩ := List.mem_map.mp ho
  rw [(readOpt_writeOpt_iff (hkeyed s hs).1).mpr (hplain s hs), Template.configured, List.map_map]
  exact (hkeyed s hs).2

section

variable (host : Host) (env : Env) (cfg : QemuConfig)

theorem keyed_bridgedTemplate {t : Template} (h : bridgedTemplate host env cfg = some t) :
    Spec.Keyed (bytes "-netdev", t) := by
  have htap : ∀ t, tapTemplate host cfg = some t → Spec.Keyed (bytes "-netdev", t) := by
    intro t ht
    cases host with
    | windows =>
      obtain ⟨name, -, rfl⟩ := Option.map_eq_some_iff.mp ht
      exact of_decide_eq_true rfl
    | macos | linux | unsupported =>
      obtain ⟨fd, -, rfl⟩ := Option.map_eq_some_iff.mp ht
      exact of_decide_eq_true rfl
  have hvmnet : ∀ mode, Spec.Keyed (bytes "-netdev", vmnetTemplate env mode) := by
    intro mode
    cases mode with
    | host =>
      rw [vmnetTemplate]
      cases env.vmnetUuid <;> exact of_decide_eq_true rfl
    | bridged iface => exact of_decide_eq_true rfl
    | socket sock => exact of_decide_eq_true rfl
  rw [bridgedTemplate, Option.or_eq_some_iff] at h
  rcases h with h | ⟨-, h⟩
  · exact htap t h
  · obtain ⟨mode, -, rfl⟩ := Option.map_eq_some_iff.mp h
    exact hvmnet mode

/-- The keys of the command line meet that: they are the source's own words. -/
theorem keyed_template : ∀ s ∈ template host env cfg, s.Keyed := by
  have hram : ∀ s ∈ ramFileTemplate host env cfg, s.Keyed := by
    rw [ramFileTemplate]
    split
    · exact List.forall_mem_nil _
    · exact List.forall_mem_singleton.mpr (of_decide_eq_true rfl)
  have hdisplay : ∀ s ∈ displayTemplate env cfg, s.Keyed :=
    List.forall_mem_singleton.mpr (of_decide_eq_true rfl)
  have hrng : ∀ s ∈ rngTemplate host, s.Keyed := by
    cases host <;> decide
  have haudio : ∀ s ∈ audioTemplate host cfg, s.Keyed := by
    rw [audioTemplate]
    cases cfg.audio <;> cases host <;> cases pinnedDevice cfg <;> exact of_decide_eq_true rfl
  have hnet : ∀ s ∈ netTemplate host env cfg, s.Keyed := by
    rw [netTemplate]
    cases hb : bridgedTemplate host env cfg with
    | none => exact of_decide_eq_true rfl
    | some netdev =>
      refine List.forall_mem_cons.mpr ⟨keyed_bridgedTemplate host env cfg hb, ?_⟩
      cases cfg.mac <;> exact of_decide_eq_true rfl
  have hchannel : ∀ s ∈ channelTemplate host env cfg, s.Keyed := by
    rw [channelTemplate]
    cases cfg.dev <;> exact of_decide_eq_true rfl
  have hjog : ∀ s ∈ jogShmTemplate host env cfg, s.Keyed := of_decide_eq_true rfl
  have hdisk : ∀ s ∈ diskTemplate host env cfg, s.Keyed := by
    rw [diskTemplate]
    cases cfg.emmcImg <;> cases cfg.ephemeral <;> exact of_decide_eq_true rfl
  have hgpu : ∀ s ∈ gpuTemplate cfg, s.Keyed := of_decide_eq_true rfl
  simp only [template, List.forall_mem_append]
  exact ⟨⟨⟨⟨⟨⟨⟨⟨hram, hdisplay⟩, hrng⟩, haudio⟩, hnet⟩, hchannel⟩, hjog⟩, hdisk⟩, hgpu⟩

end

/-! ## The condition -/

@[simp] theorem plain_nil : Template.Plain [] := fun _ hp => (by cases hp)

@[simp] theorem plain_word (k : Key) (t : Template) : Template.Plain (word k :: t) ↔ t.Plain := by
  simp [Template.Plain, word]

@[simp] theorem plain_fixed (k : Key) (v : PlainText) (t : Template) :
    Template.Plain (fixed k v :: t) ↔ t.Plain := by
  simp [Template.Plain, fixed, Val.Plain]

@[simp] theorem plain_text (k : Key) (s : Str) (t : Template) :
    Template.Plain (text k s :: t) ↔ comma ∉ s.bytes ∧ t.Plain := by
  simp [Template.Plain, text, Val.Plain]

/-- A path is read back when it has no comma and is UTF-8. -/
@[simp] theorem plain_path (k : Key) (b : Bytes) (t : Template) :
    Template.Plain (path k b :: t) ↔ PlainPath b ∧ t.Plain := by
  simp [Template.Plain, path, Val.Plain]

/-- What is put behind a directory name does not change whether it is plain. -/
theorem plainPath_append {dir : Bytes} (c : UInt8) (name : Bytes) (hc : c < 0x80)
    (hname : comma ∉ c :: name ∧ Valid name) : PlainPath (dir ++ c :: name) ↔ PlainPath dir := by
  constructor
  · rintro ⟨hcomma, hvalid⟩
    exact ⟨fun h => hcomma (List.mem_append_left _ h), (hvalid.cut hc).1⟩
  · rintro ⟨hcomma, hvalid⟩
    exact ⟨fun h => (List.mem_append.mp h).elim hcomma hname.1,
      hvalid.append (hname.2.cons_ascii hc)⟩

/-- Joining a name without a comma neither adds nor removes one. -/
theorem plainPath_join (host : Host) (dir : Bytes) {c : UInt8} {name : Bytes} (hc : c < 0x80)
    (hname : comma ∉ c :: name ∧ Valid name) :
    PlainPath (host.join dir (c :: name)) ↔ PlainPath dir := by
  rw [Host.join]
  cases hlast : dir.getLast? with
  | none =>
    obtain rfl := List.getLast?_eq_none_iff.mp hlast
    change PlainPath ([] ++ c :: name) ↔ PlainPath []
    exact plainPath_append c name hc hname
  | some d =>
    dsimp only
    split
    · exact plainPath_append c name hc hname
    · have hsep : ∀ s : UInt8, s = 92 ∨ s = 47 → s < 0x80 ∧ comma ≠ s := by
        rintro s (rfl | rfl) <;> decide
      obtain ⟨hlt, hne⟩ := hsep (if host = .windows then 92 else 47) (by split <;> simp)
      refine plainPath_append _ _ hlt ⟨?_, hname.2.cons_ascii hc⟩
      rw [List.mem_cons, not_or]
      exact ⟨hne, hname.1⟩

/-- What the configured network must keep to. -/
def VmnetMode.Plain (env : Env) : VmnetMode → Prop
  | .host => ∀ uuid, env.vmnetUuid = some uuid → comma ∉ uuid.bytes
  | .bridged iface => comma ∉ iface.bytes
  | .socket sock => PlainPath sock

/-- The guest is on a TAP device. -/
def usesTap (host : Host) (cfg : QemuConfig) : Bool :=
  match host with
  | .windows => cfg.netTapIface.isSome
  | .macos | .linux | .unsupported => cfg.netTapFd.isSome

/-- Every value that is spliced into an option is without commas, and the paths are UTF-8. -/
structure PlainConfig (host : Host) (env : Env) (cfg : QemuConfig) : Prop where
  sockDir : PlainPath (sockDir env cfg)
  emmc : ∀ img, cfg.emmcImg = some img → cfg.ephemeral = false → PlainPath img
  uid : cfg.audio = true → host ≠ .unsupported →
    ∀ uid, cfg.audioDeviceUid = some uid → comma ∉ uid.bytes
  tap : host = .windows → ∀ name, cfg.netTapIface = some name → comma ∉ name.bytes
  vmnet : usesTap host cfg = false → ∀ mode, cfg.netVmnet = some mode → mode.Plain env
  mac : usesTap host cfg = true ∨ cfg.netVmnet.isSome = true →
    ∀ mac, cfg.mac = some mac → comma ∉ mac.bytes

section

variable (host : Host) (env : Env) (cfg : QemuConfig)

/-- A socket's path is plain exactly when the sockets' directory is. -/
theorem plainPath_inSockDir (c : UInt8) (name : Bytes)
    (h : c < 0x80 ∧ comma ∉ c :: name ∧ Valid name) :
    PlainPath (host.join (sockDir env cfg) (c :: name)) ↔ PlainPath (sockDir env cfg) :=
  plainPath_join host _ h.1 h.2

theorem plain_ramFile :
    (∀ s ∈ ramFileTemplate host env cfg, s.2.Plain) ↔
    (cfg.shm = true → PlainPath (sockDir env cfg)) := by
  have hpath : PlainPath (shmPath host env cfg) ↔ PlainPath (sockDir env cfg) :=
    plainPath_inSockDir host env cfg 114 (bytes "am.shm") (by decide)
  rw [ramFileTemplate]
  cases cfg.shm <;> simp [hpath]

theorem plain_display :
    (∀ s ∈ displayTemplate env cfg, s.2.Plain) ↔ PlainPath (sockDir env cfg) := by
  have hpath : PlainPath (sockDir env cfg ++ bytes "/main.shm") ↔ PlainPath (sockDir env cfg) :=
    plainPath_append 47 (bytes "main.shm") (by decide) (by decide)
  simp [displayTemplate, hpath]

theorem plain_rng : ∀ s ∈ rngTemplate host, s.2.Plain := by
  cases host <;> simp [rngTemplate]

theorem plain_audio : (∀ s ∈ audioTemplate host cfg, s.2.Plain) ↔
    (cfg.audio = true → host ≠ .unsupported →
      ∀ uid, cfg.audioDeviceUid = some uid → comma ∉ uid.bytes) := by
  have hpinned : (∀ uid, pinnedDevice cfg = some uid → comma ∉ uid.bytes) ↔
      ∀ uid, cfg.audioDeviceUid = some uid → comma ∉ uid.bytes := by
    simp only [pinnedDevice, Option.filter_eq_some_iff, decide_eq_true_eq]
    refine ⟨fun h uid huid => ?_, fun h uid huid => h uid huid.1⟩
    by_cases hempty : uid.bytes = []
    · rw [hempty]
      exact List.not_mem_nil
    · exact h uid ⟨huid, hempty⟩
  rw [← hpinned, audioTemplate]
  cases cfg.audio <;> cases host <;> cases hp : pinnedDevice cfg <;> simp [audioKeys]

theorem plain_vmnet (mode : VmnetMode) : (vmnetTemplate env mode).Plain ↔ mode.Plain env := by
  cases mode with
  | host =>
    rw [vmnetTemplate, VmnetMode.Plain]
    cases env.vmnetUuid <;> simp
  | bridged iface => simp [vmnetTemplate, VmnetMode.Plain]
  | socket sock => simp [vmnetTemplate, VmnetMode.Plain]

/-- There is a TAP netdev exactly when the launch `usesTap`. -/
theorem isSome_tapTemplate : (tapTemplate host cfg).isSome = usesTap host cfg := by
  cases host <;> simp [tapTemplate, usesTap]

theorem plain_tap : (∀ t, tapTemplate host cfg = some t → t.Plain) ↔
    (host = .windows → ∀ name, cfg.netTapIface = some name → comma ∉ name.bytes) := by
  cases host <;> simp [tapTemplate]

/-- The netdev is the TAP device where there is one, else vmnet. -/
theorem plain_bridged : (∀ t, bridgedTemplate host env cfg = some t → t.Plain) ↔
    (host = .windows → ∀ name, cfg.netTapIface = some name → comma ∉ name.bytes) ∧
      (usesTap host cfg = false → ∀ mode, cfg.netVmnet = some mode → mode.Plain env) := by
  rw [← plain_tap, ← isSome_tapTemplate, bridgedTemplate]
  cases tapTemplate host cfg with
  | some t => simp
  | none => simp [plain_vmnet]

/-- The network's share of the condition: the TAP adapter's name, or the
    mode that is used instead. -/
theorem plain_net : (∀ s ∈ netTemplate host env cfg, s.2.Plain) ↔
    ((host = .windows → ∀ name, cfg.netTapIface = some name → comma ∉ name.bytes) ∧
      (usesTap host cfg = false → ∀ mode, cfg.netVmnet = some mode → mode.Plain env)) ∧
    (usesTap host cfg = true ∨ cfg.netVmnet.isSome = true →
      ∀ mac, cfg.mac = some mac → comma ∉ mac.bytes) := by
  have hsome : (bridgedTemplate host env cfg).isSome = true ↔
      usesTap host cfg = true ∨ cfg.netVmnet.isSome = true := by
    rw [bridgedTemplate, Option.isSome_or, Bool.or_eq_true, isSome_tapTemplate, Option.isSome_map]
  rw [← plain_bridged, ← hsome, netTemplate]
  cases bridgedTemplate host env cfg with
  | none => simp
  | some netdev => cases cfg.mac <;> simp

theorem plain_channelPair (p : PlainText) (c : UInt8) (name : Bytes)
    (hp : p.bytes ++ bytes ".sock" = c :: name) (h : c < 0x80 ∧ comma ∉ c :: name ∧ Valid name) :
    (∀ s ∈ channelPairTemplate host env cfg p, s.2.Plain) ↔ PlainPath (sockDir env cfg) := by
  rw [← plainPath_inSockDir host env cfg c name h, channelPairTemplate, hp]
  simp

theorem plain_channel : (∀ s ∈ channelTemplate host env cfg, s.2.Plain) ↔
    PlainPath (sockDir env cfg) := by
  have hctrl := plain_channelPair host env cfg (plain "ctrl") 99 (bytes "trl.sock") rfl (by decide)
  have hcfg := plain_channelPair host env cfg (plain "cfg") 99 (bytes "fg.sock") rfl (by decide)
  have hlink := plain_channelPair host env cfg (plain "usb-link") 117 (bytes "sb-link.sock") rfl
    (by decide)
  have hdev := plain_channelPair host env cfg (plain "dev") 100 (bytes "ev.sock") rfl (by decide)
  rw [channelTemplate, List.forall_mem_cons]
  cases cfg.dev with
  | false =>
    simp only [Bool.false_eq_true, if_false, List.append_nil, List.flatMap_cons, List.flatMap_nil,
      List.forall_mem_append, hctrl, hcfg, hlink]
    simp
  | true =>
    simp only [if_true, List.cons_append, List.nil_append, List.flatMap_cons, List.flatMap_nil,
      List.append_nil, List.forall_mem_append, hctrl, hcfg, hlink, hdev]
    simp

theorem plain_jogShm : (∀ s ∈ jogShmTemplate host env cfg, s.2.Plain) ↔
    PlainPath (sockDir env cfg) := by
  have hpath : PlainPath (jogShmPath host env cfg) ↔ PlainPath (sockDir env cfg) :=
    plainPath_inSockDir host env cfg 106 (bytes "og.shm") (by decide)
  simp [jogShmTemplate, hpath]

/-- The drives' share: the directory, and the eMMC image of a launch that writes to it. -/
theorem plain_disk : (∀ s ∈ diskTemplate host env cfg, s.2.Plain) ↔
    PlainPath (sockDir env cfg) ∧
      ∀ img, cfg.emmcImg = some img → cfg.ephemeral = false → PlainPath img := by
  have husb : PlainPath (usbPlaceholderPath host env cfg) ↔ PlainPath (sockDir env cfg) :=
    plainPath_inSockDir host env cfg 117 (bytes "sb.placeholder") (by decide)
  have hover : PlainPath (emmcOverlayPath host env cfg) ↔ PlainPath (sockDir env cfg) :=
    plainPath_inSockDir host env cfg 101 (bytes "mmc-overlay.qcow2") (by decide)
  rw [diskTemplate]
  cases cfg.emmcImg <;> cases cfg.ephemeral <;> simp [husb, hover]

theorem plain_gpu : ∀ s ∈ gpuTemplate cfg, s.2.Plain := by
  simp [gpuTemplate]

/-- The shares of all groups together are `PlainConfig`. -/
theorem plain_template : (∀ s ∈ template host env cfg, s.2.Plain) ↔ PlainConfig host env cfg := by
  simp only [template, List.forall_mem_append, plain_ramFile, plain_display, plain_audio, plain_net,
    plain_channel, plain_jogShm, plain_disk]
  constructor
  · rintro ⟨⟨⟨⟨⟨⟨⟨⟨-, hsock⟩, -⟩, huid⟩, ⟨htap, hvmnet⟩, hmac⟩, -⟩, -⟩, -, hemmc⟩, -⟩
    exact ⟨hsock, hemmc, huid, htap, hvmnet, hmac⟩
  · intro h
    exact ⟨⟨⟨⟨⟨⟨⟨⟨fun _ => h.sockDir, h.sockDir⟩, plain_rng host⟩, h.uid⟩, ⟨h.tap, h.vmnet⟩, h.mac⟩,
      h.sockDir⟩, h.sockDir⟩, h.sockDir, h.emmc⟩, plain_gpu cfg⟩

/-- QEMU reads back what was configured exactly when every spliced value is plain. -/
theorem readsBack_buildArgv_iff (accel : Option Accelerator) (kernel initramfs scratch : Bytes)
    (ssh : Bool) :
    (ReadsBack (buildArgv host env cfg) (template host env cfg) ↔ PlainConfig host env cfg) ∧
    (ReadsBack (provisioningArgv accel kernel initramfs scratch ssh)
      (provisioningTemplate scratch) ↔
      PlainPath scratch) := by
  constructor
  · rw [readsBack_iff (listed_buildArgv host env cfg) (keyed_template host env cfg), plain_template]
  · rw [readsBack_iff (listed_provisioningArgv accel kernel initramfs scratch ssh)
      (of_decide_eq_true rfl)]
    simp [provisioningTemplate]

end

/-- The environment of a first instance. -/
def sampleEnv : Env where
  instanceDir _ := bytes "/run/user/1000/cdj3k-emu/instance-0"
  serialIsSocket := false
  kcmdExtra := none
  vmnetUuid := none

/-- Sound on the sink `USB Audio, Front`. -/
def commaConfig : QemuConfig :=
  { QemuConfig.new none (bytes "/fw/Image") (bytes "/fw/initramfs.cpio.gz") with
    audio := true
    audioDeviceUid := some ⟨bytes "USB Audio, Front", by decide⟩ }

/-- A sink whose name has a comma is read as a sink and an option of its own. -/
theorem not_readsBack_comma :
    ¬ ∀ host env cfg, ReadsBack (buildArgv host env cfg) (template host env cfg) := by
  intro h
  have hplain := (readsBack_iff (listed_buildArgv .linux sampleEnv commaConfig)
    (keyed_template .linux sampleEnv commaConfig)).mp (h .linux sampleEnv commaConfig)
  have huid := ((plain_template .linux sampleEnv commaConfig).mp hplain).uid rfl (by decide) _ rfl
  exact huid (by decide)

end CdjEmu.Qemu
