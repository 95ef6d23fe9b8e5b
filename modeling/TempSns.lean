import TempSns.SmallMem.Usage
import TempSns.Sched.Schedule
import TempSns.Sched.SmpPick
import TempSns.Timer.Termination
import TempSns.Timer.SoftCheck
import TempSns.Timer.Delay
import TempSns.Ipc.Counters
import TempSns.Ipc.Inheritance
import TempSns.Ipc.Order
import TempSns.Ipc.EventRuns
import TempSns.Ipc.MessageRuns
import TempSns.Ipc.PoolBlocks
import TempSns.AutoAddr.Runs
import TempSns.Calib.Holding
import TempSns.MemHeap.Contents
import TempSns.Slab.PageRuns
import TempSns.Drivers.DataQueue
import TempSns.Drivers.RingBlock
import TempSns.Drivers.Sensors
import TempSns.Drivers.Pipe
import TempSns.Drivers.SerialRx
import TempSns.Drivers.Device
import TempSns.Finsh.History
import TempSns.Dfs.Normalize
import TempSns.Dfs.Mount
import TempSns.Kservice.Printf
import TempSns.Kservice.Numerals
import TempSns.Kservice.Align
import TempSns.Kservice.Memory
import TempSns.Drivers.I2cXfer
import TempSns.Finsh.IntCompile
import TempSns.Ymodem.Crc
import TempSns.Ulog.Backends
import TempSns.Ulog.AsyncOutput
import TempSns.Modbus.Slave
