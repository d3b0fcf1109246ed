import CdjEmu.Lib.Machine
import CdjEmu.Storage.Staging
import CdjEmu.Storage.StagingFinished
import CdjEmu.Storage.StagingSwap
import CdjEmu.Storage.StagingIdentity
import CdjEmu.Net.Select
import CdjEmu.Storage.SlotClaim
import CdjEmu.Usb.Manager
import CdjEmu.Usb.Worker
import CdjEmu.Usb.GuestEject
import CdjEmu.Usb.RawDisk
import CdjEmu.Usb.Mirror
import CdjEmu.Usb.Remount
import CdjEmu.Lib.Path
import CdjEmu.Firmware.Cpio
import CdjEmu.Firmware.CpioRewrite
import CdjEmu.Firmware.CpioOwnership
import CdjEmu.Firmware.LuksOpen
import CdjEmu.Runtime.QemuOptions
import CdjEmu.Mods.BootReport
import CdjEmu.Runtime.ModsRestart
import CdjEmu.Runtime.SettingsSaved
import CdjEmu.Runtime.CfgQueue
import CdjEmu.Runtime.ModJournal
import CdjEmu.Storage.SlotFile
import CdjEmu.Firmware.Fit
import CdjEmu.Storage.Emmc
import CdjEmu.Lib.Program
import CdjEmu.Mods.Add
import CdjEmu.Guest.SoundDriver
import CdjEmu.Guest.SoundPool
import CdjEmu.Guest.SoundDepth
import CdjEmu.Control.Diff
import CdjEmu.Lib.Digits
import CdjEmu.Lib.Framing
import CdjEmu.Runtime.DevProtocol
import CdjEmu.Guest.Devd
import CdjEmu.Runtime.DevClient
import CdjEmu.Runtime.DevJobs
import CdjEmu.Control.Probe
import CdjEmu.Guest.LinkQueue
import CdjEmu.Guest.LinkOrder
import CdjEmu.Guest.LinkClose
import CdjEmu.Lib.LineReader
import CdjEmu.Lib.Json
import CdjEmu.Runtime.Qmp
import CdjEmu.Control.Connection
import CdjEmu.Lib.Trim
import CdjEmu.Control.Replies
import CdjEmu.Guest.SoundCtl
import CdjEmu.Guest.SoundPlay
import CdjEmu.Lib.Circular
import CdjEmu.Qemu.BypassRing
import CdjEmu.Qemu.BypassReturn
import CdjEmu.Qemu.Resampler
import CdjEmu.Guest.SoundLatency
import CdjEmu.Lib.Octets
import CdjEmu.Panel.MisoFrame
import CdjEmu.Panel.Model
import CdjEmu.Guest.Subucom
import CdjEmu.Guest.TouchPanel
import CdjEmu.Guest.Forwarder
import CdjEmu.Lib.Seqlock
import CdjEmu.Streams.JogFrame
import CdjEmu.Streams.JogStream
import CdjEmu.Streams.JogCopy
import CdjEmu.Streams.JogDelivery
import CdjEmu.Runtime.QemuChild
import CdjEmu.Runtime.EphemeralReset
import CdjEmu.Runtime.WaitBoot
import CdjEmu.Lib.Slots
import CdjEmu.Guest.FlipSlots
import CdjEmu.Guest.ShimPoll
import CdjEmu.Lib.ByteSource
import CdjEmu.Runtime.PcLinkFrames
import CdjEmu.Control.Holds
import CdjEmu.Net.Lease
import CdjEmu.Net.LinuxLease
import CdjEmu.Net.WindowsBridge
import CdjEmu.Net.WindowsLink
import CdjEmu.Firmware.KernelPatch
import CdjEmu.Mods.Compat
import CdjEmu.Lib.Checked
import CdjEmu.Firmware.CpioTotal
import CdjEmu.Firmware.LuksTotal
import CdjEmu.Firmware.FitImage
import CdjEmu.Firmware.Iso
import CdjEmu.Firmware.IsoTotal
import CdjEmu.Storage.Qcow2
import CdjEmu.Mods.Reload
import CdjEmu.Mods.Session
import CdjEmu.Runtime.NextLine
import CdjEmu.Guest.DevdOutput
import CdjEmu.Guest.ClockShift
import CdjEmu.Lib.Utf16
import CdjEmu.Runtime.EncodedCommand
import CdjEmu.Runtime.PowerShell
import CdjEmu.Update.Version
import CdjEmu.Update.Precedence
import CdjEmu.Update.Evaluate
import CdjEmu.Control.Scenario
import CdjEmu.Lib.Stride
import CdjEmu.Control.Request
import CdjEmu.Control.RequestTotal
import CdjEmu.Lib.FolderGraph
import CdjEmu.Mods.Walk
import CdjEmu.Lib.Midi
import CdjEmu.Tools.MidiDriver
import CdjEmu.Mods.Cache
import CdjEmu.Control.GuestCommands
import CdjEmu.Runtime.QemuSignals
import CdjEmu.Lib.CommandLine
import CdjEmu.Net.WindowsRequest
import CdjEmu.Runtime.AlcPush
import CdjEmu.Tools.MidiLink
import CdjEmu.Control.WindowSocket
import CdjEmu.Lib.Interference
import CdjEmu.Update.Install
import CdjEmu.Update.Updater
