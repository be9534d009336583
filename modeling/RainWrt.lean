import RainWrt.Bytes
import RainWrt.Nand
import RainWrt.Nmbm.State
import RainWrt.Nmbm.Flash
import RainWrt.Nmbm.Mgmt
import RainWrt.Nmbm.Create
import RainWrt.Nmbm.Attach
import RainWrt.Theorems.Nand
import RainWrt.Theorems.Nmbm.State
import RainWrt.Theorems.Nmbm.Flash
import RainWrt.Theorems.Nmbm.Mgmt
import RainWrt.Theorems.Nmbm.Layout
import RainWrt.Theorems.Nmbm.Image
import RainWrt.Theorems.Nmbm.Store
import RainWrt.Theorems.Nmbm.Mapping
import RainWrt.Theorems.Nmbm.Create
import RainWrt.Theorems.Nmbm.Persist
import RainWrt.Theorems.Nmbm.Runs
import RainWrt.Theorems.Nmbm.Load
import RainWrt.Theorems.Nmbm.Agreement
import RainWrt.Proc
import RainWrt.Upgrade.Shell
import RainWrt.Upgrade.Dualboot
import RainWrt.Upgrade.Nand
import RainWrt.Theorems.Upgrade.Shell
import RainWrt.Theorems.Upgrade.Dualboot
import RainWrt.Theorems.Upgrade.Nand
import RainWrt.Upgrade.Layout
import RainWrt.Theorems.Upgrade.Layout
import RainWrt.Upgrade.Tar
import RainWrt.Theorems.Upgrade.Tar
import RainWrt.Theorems.Lists
import RainWrt.HwTest.Py
import RainWrt.HwTest.Wireless
import RainWrt.HwTest.Archive
import RainWrt.Theorems.HwTest.Wireless
import RainWrt.Theorems.HwTest.Grammar
import RainWrt.Theorems.HwTest.Archive
import RainWrt.Theorems.HwTest.Resume
import RainWrt.Theorems.HwTest.Audit
import RainWrt.En75.Table
import RainWrt.En75.State
import RainWrt.En75.Remap
import RainWrt.En75.Init
import RainWrt.En75.Chip
import RainWrt.Theorems.En75.Factory
import RainWrt.Theorems.En75.Mapping
import RainWrt.Theorems.En75.Invariant
import RainWrt.Theorems.En75.Calls
import RainWrt.Theorems.En75.Chip
import RainWrt.Theorems.En75.Table
import RainWrt.Theorems.En75.Boot
import RainWrt.Theorems.En75.Survive
import RainWrt.Theorems.En75.Crash
import RainWrt.Theorems.En75.PowerLoss
import RainWrt.Theorems.En75.CrashSafe
import RainWrt.Theorems.En75.Bounds
import RainWrt.Theorems.En75.TwoLevel
import RainWrt.Theorems.En75.Permission
import RainWrt.History
import RainWrt.HwTest.Json
import RainWrt.HwTest.Checks
import RainWrt.HwTest.Remote
import RainWrt.HwTest.Controller
import RainWrt.Theorems.HwTest.Controller
import RainWrt.HwTest.Runner
import RainWrt.Theorems.HwTest.Runner
import RainWrt.Theorems.HwTest.Gate
import RainWrt.Theorems.HwTest.Memory
import RainWrt.Logged
import RainWrt.Map.Rule
import RainWrt.Theorems.Map.Portsets
import RainWrt.Theorems.Map.Address
import RainWrt.Theorems.Map.Bounds
import RainWrt.Uline.Argp
import RainWrt.Theorems.Uline.Scan
import RainWrt.Theorems.Uline.Argp
import RainWrt.Uline.Check
import RainWrt.Theorems.Uline.Check
import RainWrt.Theorems.Uline.Spans
import RainWrt.Uline.Line
import RainWrt.Uline.Editor
import RainWrt.Theorems.Uline.Line
import RainWrt.Theorems.Uline.Editor
import RainWrt.Theorems.Uline.Width
import RainWrt.Theorems.Uline.Words
import RainWrt.Theorems.Uline.Symbols
import RainWrt.Theorems.Uline.Zipper
import RainWrt.Nvram
import RainWrt.Theorems.Nvram
import RainWrt.Iwcap
import RainWrt.Iwcap.Options
import RainWrt.Theorems.Iwcap
import RainWrt.Theorems.Iwcap.Options
import RainWrt.Mikrotik.Lz77
import RainWrt.Theorems.Mikrotik.Lz77
import RainWrt.Mikrotik.Lz77.Memory
import RainWrt.Theorems.Mikrotik.Lz77.Bounds
import RainWrt.Mikrotik.SoftConfig
import RainWrt.Theorems.Mikrotik.SoftConfig
import RainWrt.Mtd
import RainWrt.Theorems.Mtd
import RainWrt.Obj
import RainWrt.Unetmsg.Core
import RainWrt.Unetmsg.Link
import RainWrt.Unetmsg.Daemon
import RainWrt.Theorems.Unetmsg.Core
import RainWrt.Theorems.Unetmsg.Announce
import RainWrt.Theorems.Unetmsg.Link
import RainWrt.Theorems.Unetmsg.Daemon
import RainWrt.Theorems.Unetmsg.Networks
import RainWrt.Theorems.Unetmsg.Confined
import RainWrt.Theorems.Unetmsg.Isolation
import RainWrt.Theorems.Unetmsg.Local
import RainWrt.Wifi.Macaddr
import RainWrt.Wifi.Hostapd
import RainWrt.Wifi.Validate
import RainWrt.Theorems.Wifi.Macaddr
import RainWrt.Theorems.Wifi.Allocate
import RainWrt.Theorems.Wifi.Capability
import RainWrt.Theorems.Wifi.Validate
import RainWrt.Wifi.Device
import RainWrt.Theorems.Wifi.Device
import RainWrt.Theorems.Wifi.Stop
import RainWrt.Theorems.Wifi.Config
import RainWrt.Theorems.Wifi.Retry
import RainWrt.Hostapd.Pending
import RainWrt.Theorems.Hostapd.Pending
import RainWrt.Bmt.Bbt
import RainWrt.Theorems.Bmt.Bbt
import RainWrt.Theorems.Bmt.Frame
import RainWrt.Bmt.V2
import RainWrt.Theorems.Bmt.V2
import RainWrt.Bmt.Copy
import RainWrt.Theorems.Bmt.Copy
import RainWrt.Bmt.Front
import RainWrt.Theorems.Bmt.Front
import RainWrt.Theorems.Bmt.Boot
import RainWrt.Bcm4908img
import RainWrt.Theorems.Bcm4908img
import RainWrt.Bcm4908img.Bootfs
import RainWrt.Theorems.Bcm4908img.Bootfs
import RainWrt.Alternatives
import RainWrt.Theorems.Alternatives
import RainWrt.Ubi
import RainWrt.Theorems.Ubi
import RainWrt.Kconfig
import RainWrt.Theorems.Kconfig.Expr
import RainWrt.BaseFiles.Ipv4
import RainWrt.BaseFiles.Ipcalc
import RainWrt.BaseFiles.Macaddr
import RainWrt.BaseFiles.Words
import RainWrt.Mikrotik.RouterBoot
import RainWrt.Theorems.Mikrotik.RouterBoot
import RainWrt.Theorems.BaseFiles.Ipv4
import RainWrt.Theorems.BaseFiles.Ipcalc
import RainWrt.Cli.Number
import RainWrt.Cli.Editor
import RainWrt.Cli.Types
import RainWrt.Theorems.Cli.Editor
import RainWrt.Theorems.Cli.Remove
import RainWrt.Theorems.Cli.Types
import RainWrt.Unet.Iface
import RainWrt.Theorems.Unet.Iface
import RainWrt.Unet.Restore
import RainWrt.Theorems.Unet.Restore
import RainWrt.Mtd.Scan
import RainWrt.Theorems.Mtd.Scan
import RainWrt.Mtd.Fis
import RainWrt.Theorems.Mtd.Fis
import RainWrt.Mtd.Trx
import RainWrt.Theorems.Mtd.Trx
import RainWrt.Hostapd.Reload
import RainWrt.Theorems.Hostapd.Reload
import RainWrt.Hostapd.Daemon
import RainWrt.Theorems.Hostapd.Daemon
import RainWrt.Theorems.BaseFiles.Words
import RainWrt.Theorems.BaseFiles.Macaddr
import RainWrt.Theorems.BaseFiles.Canonicalize
import RainWrt.BaseFiles.Bootconfig
import RainWrt.Theorems.BaseFiles.Bootconfig
import RainWrt.BaseFiles.Users
import RainWrt.Theorems.BaseFiles.Users
import RainWrt.Tffs
import RainWrt.Theorems.Tffs.Sectors
import RainWrt.Theorems.Tffs.Lookup
import RainWrt.Theorems.Tffs.Bounds
import RainWrt.Theorems.Tffs.Newest
import RainWrt.Nvram.Memory
import RainWrt.Theorems.Nvram.Memory
import RainWrt.LinkedList
import RainWrt.Nvram.Store
import RainWrt.Theorems.Nvram.Store
import RainWrt.Mtd.Append
import RainWrt.Theorems.Mtd.Append
