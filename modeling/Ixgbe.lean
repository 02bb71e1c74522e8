import Ixgbe.Vlan.Refinement
import Ixgbe.Vlan.Visibility
import Ixgbe.Vlan.Hygiene
import Ixgbe.Vlan.PromiscWindow
import Ixgbe.Sriov.PortVlan
import Ixgbe.Sriov.Xcast
import Ixgbe.Sriov.AdminMac
import Ixgbe.Sriov.RarBudget
import Ixgbe.Sriov.MacvlanList
import Ixgbe.Sriov.OwnFilter
import Ixgbe.Fdir.Agreement
import Ixgbe.Fdir.VfQueue
import Ixgbe.Fdir.Links
import Ixgbe.Sriov.Multicast
import Ixgbe.Sriov.PortVlanSet
import Ixgbe.Ptp.RxPairing
import Ixgbe.Napi.Poll
import Ixgbe.Rx.PageRing
import Ixgbe.Xsk.RxDiscard
import Ixgbe.Sriov.Mdd
import Ixgbe.Fwlog.Ring
import Ixgbe.Ptp.TsConfig
import Ixgbe.Hw.SwfwMutex
import Ixgbe.Mbx.Lock
import Ixgbe.Dcb.EtsChange
import Ixgbe.Nvm.FlashSize
import Ixgbe.Fdir.Duplicates
import Ixgbe.Tx.Cover
import Ixgbe.Freebsd.BitOps
import Ixgbe.Freebsd.DelayedWork
import Ixgbe.Rings.Accounting
import Ixgbe.Eeprom.PageSize
import Ixgbe.Eeprom.Range
import Ixgbe.Eeprom.ChecksumX550
import Ixgbe.Xsk.TxOnce
import Ixgbe.Aci.SendCmd
import Ixgbe.Fcoe.DdpList
import Ixgbe.Dcb.Credits
import Ixgbe.Mac.Insert
import Ixgbe.Napi.Itr
import Ixgbe.Ptp.Pps
import Ixgbe.Rx.Rss
import Ixgbe.Sriov.IllegalQueue
import Ixgbe.Sriov.VfStats
import Ixgbe.Dcb.Pause
import Ixgbe.Freebsd.Checksum
import Ixgbe.Fwlog.Dump
import Ixgbe.Hw.Options
import Ixgbe.Mbx.Vf
import Ixgbe.Nvm.Pba
import Ixgbe.Queues.MsixIrqs
import Ixgbe.Freebsd.TrackedAlloc
import Ixgbe.Xdp.Channels
import Ixgbe.Dcb.PriorityMap
import Ixgbe.Fdir.PortMask
import Ixgbe.Xsk.Umem
